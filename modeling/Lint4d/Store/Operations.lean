import Lint4d.Store.Collect

/-!
# Runs of the store

Any number of processes open the store in one scope and run its operations.
SQLite serialises the write transactions, so a run is a sequence of steps: a
process takes one operation, whose transaction commits or leaves the tables as
they were.  Everything an operation meets outside the scope's tables is part
of its step, and nothing is assumed about it here.
-/

namespace Lint4d.Store

open Lint4d.Lib Lint4d.Cache Lint4d.Facts

variable (digests : Digests) {α : Type} {tables t t' : Tables} {lease' : ProcessLease}
  {res : Except Bypass (Tables × α)}

/-! ## Operations -/

/-- `publish_key`. -/
def publishKey (key : CanonicalKey) (txn : Txn) (lease : ProcessLease) (tables : Tables) :
    ProcessLease × Except Bypass (Tables × Published) :=
  match checkManifestSize key with
  | .error bypass => (lease, .error bypass)
  | .ok () => write txn lease tables fun tables => putManifest digests tables key

/-- An operation of an open store with its arguments. -/
inductive Op where
  | publishKey (key : CanonicalKey)
  | publishArtifact (artifact : ArtifactWrite)
  | publishFacts (key : ArtifactKeyRef) (facts : ArtifactFacts)
  | publishFactsWithEvidence (key : ArtifactKeyRef) (facts : ArtifactFacts)
      (evidence : EvidenceWrite)
  | publishEvidence (target : EvidenceTarget) (evidence : EvidenceWrite)
  | publishMemberRecord (record : MemberRecord)
  | beginSnapshot (context : CanonicalKey) (id token : Nonce)
  | addMembers (builder : SnapshotBuilder) (records : List Digest)
  | sealSnapshot (builder : SnapshotBuilder) (terms : SnapshotSeal) (count : Nat) (digest : Digest)
  | retireBuild (builder : SnapshotBuilder)
  | retireSnapshot (id : Nonce)
  | retireMemberRecord (id : Digest)
  | retireStep (step : RetireStep) (limits : MaintenanceLimits) (scan : Scan)
  | reclaim (scans : Bool → Nat → Scan) (maxRows : Nat) (scopes : RetiredScopes)
  | renewLease
  | expireLeases (scan : Nat → Scan) (maxRows : Nat) (elsewhere : Nat × Nat)
  | holdSnapshot (snapshot : Nonce)
  | releaseSnapshot (snapshot : Nonce)
  | flushHints (hints : Hints)

/-- What the caller gets to keep from a committed operation. -/
inductive Reply where
  | done
  | builder (builder : SnapshotBuilder)
  | header (header : SnapshotHeader)
deriving DecidableEq

/-- The tables of a committed operation and what the caller keeps. -/
abbrev Committed := Except Bypass (Tables × Reply)

/-- What the caller keeps of a result. -/
def keep {α : Type} (reply : α → Reply) (result : Except Bypass (Tables × α)) : Committed :=
  result.map fun (tables, value) => (tables, reply value)

variable {kept : Reply} {reply : α → Reply}

lemma keep_ok (h : keep reply res = .ok (tables, kept)) :
    ∃ value, res = .ok (tables, value) ∧ kept = reply value := by
  cases res with
  | error => cases h
  | ok res =>
    cases h
    exact ⟨res.2, rfl, rfl⟩

/-- What a write does to the process's memory of its lease, and what the caller
keeps. -/
def keepBoth {α : Type} (reply : α → Reply) (result : ProcessLease × Except Bypass (Tables × α)) :
    ProcessLease × Committed :=
  (result.1, keep reply result.2)

def Reply.nothing {α : Type} (_ : α) : Reply := .done

/-- Run an operation: the lease as the process then remembers it, and the outcome. -/
def Op.run (op : Op) (txn : Txn) (lease : ProcessLease) (tables : Tables) :
    ProcessLease × Committed :=
  match op with
  | publishKey key => keepBoth .nothing (Store.publishKey digests key txn lease tables)
  | publishArtifact artifact =>
    keepBoth .nothing (Store.publishArtifact digests artifact txn lease tables)
  | publishFacts key facts =>
    keepBoth .nothing (Store.publishFacts digests key facts txn lease tables)
  | publishFactsWithEvidence key facts evidence =>
    keepBoth .nothing (Store.publishFactsWithEvidence digests key facts evidence txn lease tables)
  | publishEvidence target evidence =>
    keepBoth .nothing (Store.publishEvidence digests target evidence txn lease tables)
  | publishMemberRecord record =>
    keepBoth .nothing (Store.publishMemberRecord digests record txn lease tables)
  | beginSnapshot context id token =>
    keepBoth .builder (Store.beginSnapshot digests context id token txn lease tables)
  | addMembers builder records =>
    keepBoth .builder (Store.addMembers builder records txn lease tables)
  | sealSnapshot builder terms count digest =>
    keepBoth .header (Store.sealSnapshot builder terms count digest txn lease tables)
  | retireBuild builder => (lease, keep .nothing (Store.retireBuild builder txn tables))
  | retireSnapshot id => (lease, keep .nothing (Store.retireSnapshot id txn tables))
  | retireMemberRecord id => (lease, keep .nothing (Store.retireMemberRecord id txn tables))
  | retireStep step limits scan =>
    (lease, keep .nothing (Store.retireStep step limits scan txn tables))
  | reclaim scans maxRows scopes =>
    (lease, keep .nothing (Store.reclaim scans maxRows scopes txn tables))
  | renewLease => keepBoth .nothing (Store.renewLease txn lease tables)
  | expireLeases scan maxRows elsewhere =>
    (lease, keep .nothing (Store.expireLeases txn scan maxRows elsewhere tables))
  | holdSnapshot snapshot => (lease, keep .nothing (Store.holdSnapshot txn lease snapshot tables))
  | releaseSnapshot snapshot =>
    (lease, keep .nothing (Store.releaseSnapshot txn lease snapshot tables))
  | flushHints hints => (lease, keep .nothing (Store.flushHints txn hints tables).2)

variable {lease : ProcessLease}

lemma keepBoth_ok {res : ProcessLease × Except Bypass (Tables × α)}
    (h : keepBoth reply res = (lease, .ok (t, kept))) :
    ∃ value, res = (lease, .ok (t, value)) ∧ kept = reply value := by
  obtain ⟨hlease, hkept⟩ := Prod.mk.inj h
  obtain ⟨value, hvalue, hreply⟩ := keep_ok hkept
  exact ⟨value, Prod.ext hlease hvalue, hreply⟩

lemma kept_ok (h : (lease, keep reply res) = (lease', .ok (t, kept))) :
    lease' = lease ∧ ∃ value, res = .ok (t, value) := by
  obtain ⟨hlease, hkept⟩ := Prod.mk.inj h
  obtain ⟨value, hvalue, -⟩ := keep_ok hkept
  exact ⟨hlease.symm, value, hvalue⟩

/-- What a write runs in its transaction, and what the caller keeps of it. -/
structure Statements where
  {α : Type}
  reply : α → Reply
  run : Tables → Except Bypass (Tables × α)

variable (digests : Digests) (txn : Txn) (lease : ProcessLease) in
/-- The statements that an operation runs in one write once its preparations have
passed. -/
inductive Op.Writes :
    Op → Statements → Prop
  | publishKey {key} : Writes (.publishKey key)
        ⟨.nothing, fun tables => putManifest digests tables key⟩
  | publishArtifact {artifact prepared} (h : prepareArtifact digests artifact = .ok prepared) :
      Writes (.publishArtifact artifact)
        ⟨.nothing, insertPrepared digests artifact prepared⟩
  | publishFacts {key facts encoded prepared} (hencoded : encodeFacts facts = .ok encoded)
      (h : prepareArtifact digests
        { key, supplemental := encoded.supplemental, rows := writeRows encoded } = .ok prepared) :
      Writes (.publishFacts key facts) ⟨.nothing, insertPrepared digests
        { key, supplemental := encoded.supplemental, rows := writeRows encoded } prepared⟩
  | publishFactsWithEvidence {key facts evidence artifact prepared concluded}
      (h : prepareFactsWithEvidence digests key facts evidence =
        .ok (artifact, prepared, concluded)) : Writes (.publishFactsWithEvidence key facts evidence)
        ⟨.nothing, insertWithEvidence digests artifact evidence.context prepared concluded⟩
  | publishEvidence {target evidence prepared}
      (h : prepareTargetEvidence digests target evidence = .ok prepared) :
      Writes (.publishEvidence target evidence)
        ⟨.nothing, insertTargetEvidence digests target evidence.context prepared⟩
  | publishMemberRecord {record encoded} (h : prepareRecord digests record = .ok encoded) :
      Writes (.publishMemberRecord record)
        ⟨.nothing, putRecord record encoded⟩
  | beginSnapshot {context id token} : Writes (.beginSnapshot context id token)
        ⟨.builder, insertSnapshot digests context id token lease txn.later⟩
  | addMembers {builder records} : Writes (.addMembers builder records)
        ⟨.builder, appendMembers builder records⟩
  | sealSnapshot {builder terms count digest} : Writes (.sealSnapshot builder terms count digest)
        ⟨.header, sealStatements builder terms count digest⟩

def Op.isWrite : Op → Bool
  | publishKey .. => true
  | publishArtifact .. => true
  | publishFacts .. => true
  | publishFactsWithEvidence .. => true
  | publishEvidence .. => true
  | publishMemberRecord .. => true
  | beginSnapshot .. => true
  | addMembers .. => true
  | sealSnapshot .. => true
  | _ => false

/-- The preparations of a write bypass it or lead to its statements. -/
lemma Op.run_write {op : Op} {txn : Txn} (hop : op.isWrite = true) (t : Tables) :
    (∃ bypass, op.run digests txn lease t = (lease, .error bypass)) ∨
      ∃ stmts, op.Writes digests txn lease stmts ∧ op.run digests txn lease t = keepBoth stmts.reply
          (write txn lease t stmts.run) := by
  cases op with
  | publishFacts =>
    simp only [run, Store.publishFacts]
    split
    · exact .inl ⟨_, rfl⟩
    · unfold Store.publishArtifact
      split
      · exact .inl ⟨_, rfl⟩
      · exact .inr ⟨_, .publishFacts ‹_› ‹_›, rfl⟩
  | sealSnapshot => exact .inr ⟨_, .sealSnapshot, rfl⟩
  | publishKey | publishArtifact | publishFactsWithEvidence | publishEvidence
  | publishMemberRecord | beginSnapshot | addMembers =>
    -- one check before the transaction
    simp only [run, Store.publishKey, Store.publishArtifact, Store.publishFactsWithEvidence,
      Store.publishEvidence, Store.publishMemberRecord, Store.beginSnapshot, Store.addMembers]
    split
    · exact .inl ⟨_, rfl⟩
    · refine .inr ⟨_, by constructor <;> assumption, rfl⟩
  | _ => cases hop

variable (txn : Txn) (lease : ProcessLease) (tables : Tables) in
/-- What an operation that is not a write commits, and the lease it leaves. -/
inductive Op.Commits :
    Op → Tables → ProcessLease → Prop
  | unchanged {op} : Commits op tables lease
  | retireBuild {builder leaseHolds} : Commits (.retireBuild builder) { tables with
        snapshots := tables.snapshots.update (retires builder.id (some builder.token)) .retire
          SnapshotRow.key_retire
        leaseHolds } lease
  | retireSnapshot {id leaseHolds} : Commits (.retireSnapshot id) { tables with
        snapshots := tables.snapshots.update (retires id none) .retire SnapshotRow.key_retire
        leaseHolds } lease
  | retireMemberRecord {id} : Commits (.retireMemberRecord id) { tables with
        memberRecords := tables.memberRecords.update
          (fun row => row.recordId = id && row.isLive) .retire RecordRow.key_retire } lease
  | retireStep {step limits scan pressured} : Commits (.retireStep step limits scan)
        (step.statement limits scan pressured txn.now tables).1 lease
  | reclaim {scans maxRows scopes budget spared} : Commits (.reclaim scans maxRows scopes)
        (reclaimLive (scans false) txn.live spared
          (reclaimScope (scans true) scopes budget tables).1).1 lease
  | renewLease (hdue : due lease txn.now = true) : Commits .renewLease
        { tables with processLeases := renewRows tables lease.id txn.now }
        { lease with renewed := txn.now }
  | expireLeases {scan maxRows elsewhere leaseHolds p} :
      Commits (.expireLeases scan maxRows elsewhere)
        { tables with leaseHolds, processLeases := tables.processLeases.delete p } lease
  | holdSnapshot {snapshot leaseHolds} : Commits (.holdSnapshot snapshot)
        { ensureRow tables lease txn.now with leaseHolds } lease
  | releaseSnapshot {snapshot leaseHolds} :
      Commits (.releaseSnapshot snapshot) { tables with leaseHolds } lease
  | flushHints {hints} : Commits (.flushHints hints)
        (bumpAll (nextPublicationSeq tables).1 0 hints.pending).1 lease

lemma retireWhere_ok {id : Nonce} {token : Option Nonce} {txn : Txn} {changed : Bool}
    (h : retireWhere id token txn t = .ok (t', changed)) :
    ∃ leaseHolds, t' = { t with
      snapshots := t.snapshots.update (retires id token) .retire SnapshotRow.key_retire
      leaseHolds } := by
  simp only [retireWhere, bind_ok_iff] at h
  obtain ⟨_, -, _, -, _, -, h⟩ := h
  obtain rfl := Txn.tables_of_finish h
  split
  · exact ⟨_, rfl⟩
  · exact ⟨t.leaseHolds, rfl⟩

lemma insertHold_ok {snapshot : Nonce} {held : Bool}
    (h : insertHold lease snapshot t = .ok (t', held)) :
    ∃ leaseHolds, t' = { t with leaseHolds } := by
  unfold insertHold at h
  split at h
  · cases h
  · dsimp only at h
    split at h
    · cases h
      exact ⟨_, rfl⟩
    · cases h
      exact ⟨_, rfl⟩

lemma Op.run_commits {op : Op} {txn : Txn} {lease' : ProcessLease} {t t' : Tables} {reply : Reply}
    (hop : op.isWrite = false) (h : op.run digests txn lease t = (lease', .ok (t', reply))) :
    op.Commits txn lease t t' lease' := by
  cases op with
  | retireBuild =>
    obtain ⟨rfl, _, h⟩ := kept_ok h
    obtain ⟨leaseHolds, rfl⟩ := retireWhere_ok h
    exact .retireBuild
  | retireSnapshot =>
    obtain ⟨rfl, _, h⟩ := kept_ok h
    obtain ⟨leaseHolds, rfl⟩ := retireWhere_ok h
    exact .retireSnapshot
  | retireMemberRecord =>
    obtain ⟨rfl, _, h⟩ := kept_ok h
    obtain rfl := Txn.tables_of_finish (ok_of_bind_ok (ok_of_bind_ok (ok_of_bind_ok h)))
    exact .retireMemberRecord
  | retireStep =>
    obtain ⟨rfl, _, h⟩ := kept_ok h
    replace h := ok_of_bind_ok (ok_of_bind_ok (ok_of_bind_ok h))
    obtain ⟨_, -, h⟩ := bind_ok_iff.mp h
    obtain rfl := Txn.tables_of_finish h
    exact .retireStep
  | reclaim =>
    obtain ⟨rfl, _, h⟩ := kept_ok h
    obtain rfl := Txn.tables_of_finish (ok_of_bind_ok (ok_of_bind_ok h))
    exact .reclaim
  | renewLease =>
    obtain ⟨_, h, -⟩ := keepBoth_ok h
    unfold Store.renewLease at h
    split at h
    · split at h
      · cases h
      · split at h
        · rename_i hdue
          split at h
          · cases h
          · obtain ⟨rfl, hresult⟩ := Prod.mk.inj h
            obtain rfl := Txn.tables_of_finish hresult
            exact .renewLease hdue
        · cases h
          exact .unchanged
    · cases h
      exact .unchanged
  | expireLeases =>
    obtain ⟨rfl, _, h⟩ := kept_ok h
    obtain rfl := Txn.tables_of_finish (ok_of_bind_ok h)
    exact .expireLeases
  | holdSnapshot =>
    obtain ⟨rfl, _, h⟩ := kept_ok h
    replace h := ok_of_bind_ok (ok_of_bind_ok (ok_of_bind_ok h))
    dsimp only at h
    split at h
    · cases h
      exact .unchanged
    · obtain ⟨leaseHolds, rfl⟩ := insertHold_ok (Txn.finish_ok h)
      exact .holdSnapshot
  | releaseSnapshot =>
    obtain ⟨rfl, _, h⟩ := kept_ok h
    obtain rfl := Txn.tables_of_finish (ok_of_bind_ok (ok_of_bind_ok h))
    exact .releaseSnapshot
  | flushHints =>
    obtain ⟨rfl, _, h⟩ := kept_ok h
    unfold Store.flushHints at h
    split at h
    · cases h
      exact .unchanged
    · split at h
      · cases h
        exact .unchanged
      · split at h
        · cases h
        · rename_i res hflush
          cases h
          obtain rfl := Txn.tables_of_finish (ok_of_bind_ok (ok_of_bind_ok (ok_of_bind_ok hflush)))
          exact .flushHints
  | _ => cases hop

/-- A transaction at one moment that meets nothing in its way. -/
def Txn.calm (now : Nat) : Txn where
  «begin» := .ok ()
  live := true
  admission := .ok ()
  pressure := .none
  before := now
  now := now
  later := now
  commit := .ok ()

/-! ## Worlds -/

/-- The tables of the scope, and the lease each process with an open store
remembers. -/
structure World where
  tables : Tables
  leases : Nat → Option ProcessLease

/-- No process has opened a scope without rows. -/
def World.initial (seq : Nat) : World where
  tables := .initial seq
  leases _ := none

/-- The world once process `p` has left `tables` and remembers `lease`. -/
def World.after (world : World) (p : Nat) (tables : Tables) (lease : Option ProcessLease) :
    World where
  tables
  leases := Function.update world.leases p lease

@[simp] lemma World.after_leases_self (world : World) (p : Nat) (tables : Tables)
    (lease : Option ProcessLease) : (world.after p tables lease).leases p = lease :=
  Function.update_self ..

lemma World.after_leases_of_ne (world : World) {p q : Nat} (h : q ≠ p) (tables : Tables)
    (lease : Option ProcessLease) : (world.after p tables lease).leases q = world.leases q :=
  Function.update_of_ne h ..

/-- What a process does. -/
inductive Action where
  | openStore (id : Nonce)
  | dropStore
  | run (op : Op)

/-- One process acts once. -/
structure Step where
  process : Nat
  action : Action
  txn : Txn

/-- The tables after a transaction: a failed one changes nothing. -/
def settle {α : Type} (tables : Tables) : Except Bypass (Tables × α) → Tables
  | .ok (tables, _) => tables
  | .error _ => tables

/-- Opening takes a lease; dropping gives it up whether or not its rows could be
deleted.  A process without a store has no operations. -/
def World.step (world : World) (step : Step) : World :=
  match step.action, world.leases step.process with
  | .openStore id, none =>
    match openLease step.txn id world.tables with
    | (lease, .ok (tables, ())) => world.after step.process tables (some lease)
    | (_, .error _) => world
  | .dropStore, some lease =>
    world.after step.process (settle world.tables (release step.txn lease world.tables)) none
  | .run op, some lease =>
    let result := op.run digests step.txn lease world.tables
    world.after step.process (settle world.tables result.2) (some result.1)
  | _, _ => world

variable {world : World} {step : Step}

/-- The step of an operation that commits. -/
lemma World.step_committed {op : Op} {reply : Reply} (haction : step.action = .run op)
    (hlease : world.leases step.process = some lease)
    (hrun : op.run digests step.txn lease world.tables = (lease', .ok (tables, reply))) :
    world.step digests step = world.after step.process tables (some lease') := by
  simp [World.step, haction, hlease, hrun, settle]

variable (world : World) (step : Step) in
/-- What one step can do. -/
inductive World.StepsTo : World → Prop
  | idle : StepsTo world
  | opened {id lease tables}
      (haction : step.action = .openStore id) (hclosed : world.leases step.process = none)
      (hopen : openLease step.txn id world.tables = (lease, .ok (tables, ()))) :
      StepsTo (world.after step.process tables (some lease))
  | dropped {lease : ProcessLease} {tables} (haction : step.action = .dropStore)
      (hlease : world.leases step.process = some lease)
      (htables : tables = world.tables ∨ release step.txn lease world.tables = .ok (tables, ())) :
      StepsTo (world.after step.process tables none)
  | failed {op lease lease' bypass}
      (haction : step.action = .run op) (hlease : world.leases step.process = some lease)
      (hrun : op.run digests step.txn lease world.tables = (lease', .error bypass)) :
      StepsTo (world.after step.process world.tables (some lease'))
  | committed {op lease lease' tables reply}
      (haction : step.action = .run op) (hlease : world.leases step.process = some lease)
      (hrun : op.run digests step.txn lease world.tables = (lease', .ok (tables, reply))) :
      StepsTo (world.after step.process tables (some lease'))

lemma World.stepsTo_step (world : World) (step : Step) :
    world.StepsTo digests step (world.step digests step) := by
  unfold World.step
  split
  · rename_i id haction hclosed
    split
    · rename_i hopen
      exact .opened haction hclosed hopen
    · exact .idle
  · rename_i lease haction hlease
    refine .dropped haction hlease ?_
    cases hrelease : release step.txn lease world.tables with
    | error bypass => exact .inl rfl
    | ok res => exact .inr rfl
  · rename_i op lease haction hlease
    cases hrun : op.run digests step.txn lease world.tables with
    | mk _ res =>
      cases res with
      | error bypass => exact .failed haction hlease hrun
      | ok res => exact .committed haction hlease hrun
  · exact .idle

/-- A step changes the lease of its own process only. -/
lemma World.StepsTo.leases_of_ne {digests : Digests} {world' : World} {p : Nat}
    (h : world.StepsTo digests step world') (hp : p ≠ step.process) :
    world'.leases p = world.leases p := by
  cases h with
  | idle => rfl
  | opened | dropped | failed | committed => exact world.after_leases_of_ne hp ..

def World.run (world : World) (steps : List Step) : World := steps.foldl (World.step digests) world

lemma World.run_append (world : World) (steps later : List Step) :
    world.run digests (steps ++ later) = (world.run digests steps).run digests later :=
  List.foldl_append ..

lemma World.run_append_singleton (world : World) (steps : List Step) (step : Step) :
    world.run digests (steps ++ [step]) = (world.run digests steps).step digests step :=
  List.foldl_append ..

/-- Every step of a run meets a condition on itself and the state before it. -/
def World.Along (P : World → Step → Prop) : World → List Step → Prop
  | _, [] => True
  | world, step :: steps => P world step ∧ Along P (world.step digests step) steps

instance World.decidableAlong (P : World → Step → Prop) [∀ world step, Decidable (P world step)] :
    (world : World) → (steps : List Step) → Decidable (world.Along digests P steps)
  | _, [] => inferInstanceAs (Decidable True)
  | world, step :: steps =>
    have := World.decidableAlong P (world.step digests step) steps
    inferInstanceAs (Decidable (P world step ∧ _))

variable {steps : List Step}

lemma World.along_append_singleton {P : World → Step → Prop} :
    world.Along digests P (steps ++ [step]) ↔
      world.Along digests P steps ∧ P (world.run digests steps) step := by
  induction steps generalizing world with
  | nil => simp [Along, run]
  | cons _ steps ih =>
    rw [List.cons_append, Along, Along, ih, and_assoc]
    rfl

/-- What holds initially and after every step of a kind holds after every run of
such steps. -/
lemma World.run_invariant {P : World → Prop} {Q : Step → Prop}
    (hstep : ∀ world step, P world → Q step → P (world.step digests step))
    (hsteps : ∀ step ∈ steps, Q step) (h : P world) : P (world.run digests steps) := by
  induction steps generalizing world with
  | nil => exact h
  | cons step steps ih =>
    have hhead : Q step := hsteps step (List.mem_cons_self ..)
    have htail : ∀ other ∈ steps, Q other := fun other hother =>
      hsteps other (List.mem_cons_of_mem step hother)
    exact ih htail (hstep world step h hhead)

end Lint4d.Store
