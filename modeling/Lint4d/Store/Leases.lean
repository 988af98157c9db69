import Lint4d.Store.Tables

/-!
# Write transactions and process leases

A write transaction of the store (`store/sqlite.rs`, `store/budget.rs`) is
atomic: it commits all of its statements or none of them.  What it meets
outside the tables (whether it can begin and commit, whether the scope is
live, what the policy decides, the clock) is a `Txn`.

`store/leases.rs`: each open store keeps one lease row, renews it inside its
own writes at most once a minute, and remembers when it did.  That memory is
not part of the database: a transaction that fails does not restore it.
-/

namespace Lint4d.Store

open Lint4d.Lib Lint4d.Cache

variable {α : Type} {tables : Tables} {result : Tables × α}

/-! ## Transactions -/

/-- What keeps new writes out (`budget.rs`). -/
inductive Pressure where
  | none
  | walPressure
  | overHeadroom
  | lowDiskSpace
deriving DecidableEq

/-- What one write transaction meets outside the tables of its scope. -/
structure Txn where
  /-- Whether the writer is acquired and the transaction begins. -/
  «begin» : Except Bypass Unit
  /-- What `ensure_live` finds: the scope is the live one of its namespace. -/
  live : Bool
  /-- What the policy decides on a write of this size. -/
  admission : Except Bypass Unit
  pressure : Pressure
  /-- The clock before the transaction begins. -/
  before : Nat
  /-- The clock inside the transaction. -/
  now : Nat
  /-- The clock when it is read again later in the transaction. -/
  later : Nat
  /-- Whether the statements run and the transaction commits. -/
  commit : Except Bypass Unit

variable {txn : Txn}

namespace Txn

def ensureLive (txn : Txn) : Except Bypass Unit :=
  if txn.live then .ok () else .error .fenced

def refuseAtWalThreshold (txn : Txn) : Except Bypass Unit :=
  if txn.pressure = .walPressure then .error .walPressure else .ok ()

/-- Run the statements of a transaction that has begun, then commit. -/
def finish {α : Type} (txn : Txn) (statements : Except Bypass (Tables × α)) :
    Except Bypass (Tables × α) := do
  let result ← statements
  txn.commit
  pure result

lemma finish_ok {stmts : Except Bypass (Tables × α)}
    (h : txn.finish stmts = .ok result) : stmts = .ok result := by
  obtain ⟨_, hfound, hrest⟩ := bind_ok_iff.mp h
  obtain ⟨_, -, heq⟩ := bind_ok_iff.mp hrest
  obtain rfl := pure_ok_iff.mp heq
  exact hfound

lemma tables_of_finish {tables' : Tables} {value value' : α}
    (h : txn.finish (.ok (tables, value)) = .ok (tables', value')) : tables' = tables :=
  congrArg Prod.fst (Except.ok.inj (finish_ok h)).symm

end Txn

/-! ## Leases -/

def leaseRenewal : Nat := 60
def leaseExpiry : Nat := 600
def maxLeaseHolds : Nat := 16

/-- A store's lease as its process remembers it. -/
structure ProcessLease where
  id : Nonce
  /-- Unix seconds of the last renewal this process made. -/
  renewed : Nat
deriving DecidableEq

def ProcessLease.new (id : Nonce) : ProcessLease := { id, renewed := 0 }

/-- A renewal of the committed row: the floor takes the sequence of the previous
renewal. -/
def LeaseRow.renew (now current : Nat) (row : LeaseRow) : LeaseRow :=
  { row with renewedUnixSeconds := now, floorSeq := row.renewalSeq, renewalSeq := current }

def LeaseRow.new (id : Nonce) (now current : Nat) : LeaseRow :=
  { leaseId := id, renewedUnixSeconds := now, renewalSeq := current, floorSeq := current }

/-- The rows after a renewal: an `UPDATE`, or an `INSERT` when it changed nothing. -/
def renewRows (tables : Tables) (id : Nonce) (now : Nat) : Table LeaseRow :=
  if tables.processLeases.any fun row => row.leaseId = id then
    tables.processLeases.update (fun row => row.leaseId = id)
      (LeaseRow.renew now tables.publicationSeq) fun _ => rfl
  else tables.processLeases.insertOrIgnore (.new id now tables.publicationSeq)

/-- `renew`: the row in the caller's transaction, and the process's memory. -/
def renew (tables : Tables) (lease : ProcessLease) (now : Nat) : Tables × ProcessLease :=
  ({ tables with processLeases := renewRows tables lease.id now }, { lease with renewed := now })

/-- Make sure the lease row exists without moving an existing floor. -/
def ensureRow (tables : Tables) (lease : ProcessLease) (now : Nat) : Tables :=
  { tables with
    processLeases := tables.processLeases.insertOrIgnore
      (.new lease.id now tables.publicationSeq) }

def due (lease : ProcessLease) (now : Nat) : Bool := leaseRenewal ≤ now - lease.renewed

def liveSince (now : Nat) : Nat := now - leaseExpiry

/-- The lowest `floor_seq` of the live leases, else the current sequence. -/
def horizon (tables : Tables) (now : Nat) : Nat :=
  let floors := (tables.processLeases.rows.filter fun row =>
    liveSince now ≤ row.renewedUnixSeconds).map LeaseRow.floorSeq
  floors.min?.getD tables.publicationSeq

/-- Renew when a renewal is due: the end of `admit_write`. -/
def renewIfDue (txn : Txn) (lease : ProcessLease) (tables : Tables) : Tables × ProcessLease :=
  if due lease txn.now then renew tables lease txn.now else (tables, lease)

/-- A write: checks before its transaction, the scope check, admission with a
renewal if one is due, and its statements.  An error restores the tables but
not the memory of a renewal. -/
def write {α : Type} (txn : Txn) (lease : ProcessLease) (tables : Tables)
    (statements : Tables → Except Bypass (Tables × α)) :
    ProcessLease × Except Bypass (Tables × α) :=
  match (do txn.begin; txn.ensureLive; txn.admission : Except Bypass Unit) with
  | .error bypass => (lease, .error bypass)
  | .ok () =>
    let admitted := renewIfDue txn lease tables
    (admitted.2, txn.finish (statements admitted.1))

lemma write_ok {lease lease' : ProcessLease} {stmts : Tables → Except Bypass (Tables × α)}
    (h : write txn lease tables stmts = (lease', .ok result)) :
    lease' = (renewIfDue txn lease tables).2 ∧
      stmts (renewIfDue txn lease tables).1 = .ok result := by
  unfold write at h
  split at h
  · cases h
  · obtain ⟨hlease, hresult⟩ := Prod.mk.inj h
    exact ⟨hlease.symm, Txn.finish_ok hresult⟩

/-! ## Lease operations -/

/-- The first renewal of a store that opens with lease `id`. -/
def openLease (txn : Txn) (id : Nonce) (tables : Tables) :
    ProcessLease × Except Bypass (Tables × Unit) :=
  match (do txn.begin; txn.ensureLive : Except Bypass Unit) with
  | .error bypass => (.new id, .error bypass)
  | .ok () =>
    let renewed := renew tables (.new id) txn.now
    (renewed.2, txn.finish (.ok (renewed.1, ())))

/-- `renew_lease`; whether a renewal is due is asked again inside the
transaction. -/
def renewLease (txn : Txn) (lease : ProcessLease) (tables : Tables) :
    ProcessLease × Except Bypass (Tables × Unit) :=
  if due lease txn.before then
    match txn.begin with
    | .error bypass => (lease, .error bypass)
    | .ok () =>
      if due lease txn.now then
        match txn.ensureLive with
        | .error bypass => (lease, .error bypass)
        | .ok () =>
          let renewed := renew tables lease txn.now
          (renewed.2, txn.finish (.ok (renewed.1, ())))
      else (lease, .ok (tables, ()))
  else (lease, .ok (tables, ()))

/-- The hold's lease was last renewed before `since`. -/
def HoldRow.isExpired (tables : Tables) (since : Nat) (hold : HoldRow) : Bool :=
  tables.processLeases.any fun row =>
    row.leaseId = hold.leaseId && decide (row.renewedUnixSeconds < since)

/-- `expire_leases`: holds of expired leases, then expired leases left without
holds.  It deletes in every scope; `elsewhere` counts the rows of other scopes
that the two statements take. -/
def expireLeases (txn : Txn) (scan : Nat → Scan) (maxRows : Nat) (elsewhere : Nat × Nat)
    (tables : Tables) : Except Bypass (Tables × Nat) := do
  txn.begin
  let since := liveSince txn.before
  let holds := tables.leaseHolds.pick (scan 0) (HoldRow.isExpired tables since)
    (maxRows - elsewhere.1)
  let tables := { tables with
    leaseHolds := tables.leaseHolds.delete fun row => Keyed.key row ∈ holds }
  let leases := tables.processLeases.pick (scan 1)
    (fun row => decide (row.renewedUnixSeconds < since) &&
      !tables.leaseHolds.any fun hold => hold.leaseId = row.leaseId)
    (maxRows - (holds.length + elsewhere.1) - elsewhere.2)
  let tables := { tables with
    processLeases := tables.processLeases.delete fun row => Keyed.key row ∈ leases }
  txn.finish (.ok (tables, holds.length + elsewhere.1 + (leases.length + elsewhere.2)))

/-- The lease holds this snapshot, and it is sealed. -/
def HoldRow.isOfSealed (tables : Tables) (id : Nonce) (hold : HoldRow) : Bool :=
  hold.leaseId = id && tables.snapshots.any fun row =>
    row.snapshotId = hold.snapshotId && row.state = .sealed

/-- The statements of `hold_snapshot` after the lease row exists. -/
def insertHold (lease : ProcessLease) (snapshot : Nonce) (tables : Tables) :
    Except Bypass (Tables × Bool) :=
  if tables.leaseHolds.count (HoldRow.isOfSealed tables lease.id) ≥ maxLeaseHolds then
    .error .tooManyHolds
  else
    let isSealed := tables.snapshots.any fun row =>
      row.snapshotId = snapshot && row.state = .sealed
    let hold : HoldRow := { leaseId := lease.id, snapshotId := snapshot }
    if isSealed && !tables.leaseHolds.any (fun row => row = hold) then
      .ok ({ tables with leaseHolds := tables.leaseHolds.insertOrIgnore hold }, true)
    else .ok (tables, false)

/-- `hold_snapshot`.  A snapshot that is already held leaves the transaction
without a commit. -/
def holdSnapshot (txn : Txn) (lease : ProcessLease) (snapshot : Nonce) (tables : Tables) :
    Except Bypass (Tables × Bool) := do
  txn.begin
  txn.ensureLive
  txn.refuseAtWalThreshold
  let ensured := ensureRow tables lease txn.now
  if ensured.leaseHolds.any fun hold =>
      hold.snapshotId = snapshot && HoldRow.isOfSealed ensured lease.id hold then
    .ok (tables, true)
  else txn.finish (insertHold lease snapshot ensured)

def releaseSnapshot (txn : Txn) (lease : ProcessLease) (snapshot : Nonce) (tables : Tables) :
    Except Bypass (Tables × Bool) := do
  txn.begin
  txn.ensureLive
  let hold : HoldRow := { leaseId := lease.id, snapshotId := snapshot }
  txn.finish (.ok ({ tables with leaseHolds := tables.leaseHolds.delete fun row => row = hold },
    tables.leaseHolds.any fun row => row = hold))

/-- `release`, when a store is dropped: its holds and its lease row. -/
def release (txn : Txn) (lease : ProcessLease) (tables : Tables) :
    Except Bypass (Tables × Unit) := do
  txn.begin
  txn.finish (.ok ({ tables with
    leaseHolds := tables.leaseHolds.delete fun row => row.leaseId = lease.id
    processLeases := tables.processLeases.delete fun row => row.leaseId = lease.id }, ()))

/-! ## Recency hints -/

/-- A row a process reused, whose sequence a flush bumps. -/
inductive Hint where
  | evidence (id : Digest)
  | artifact (id : Digest)
  | record (id : Digest)
deriving DecidableEq

structure Hints where
  pending : List Hint := []
  flushed : Option Nat := none
deriving DecidableEq

/-- Bump one live row to the current sequence. -/
def bump (tables : Tables) : Hint → Tables
  | .evidence id => { tables with
      evidenceSets := tables.evidenceSets.update (fun row => row.evidenceId = id && row.isLive)
        (fun row => { row with publicationSeq := tables.publicationSeq }) fun _ => rfl }
  | .artifact id => { tables with
      artifacts := tables.artifacts.update (fun row => row.artifactId = id && row.isLive)
        (fun row => { row with publicationSeq := tables.publicationSeq }) fun _ => rfl }
  | .record id => { tables with
      memberRecords := tables.memberRecords.update (fun row => row.recordId = id && row.isLive)
        (fun row => { row with publicationSeq := tables.publicationSeq }) fun _ => rfl }

/-- The rows one bump changes. -/
def bumped (tables : Tables) : Hint → Nat
  | .evidence id => tables.evidenceSets.count fun row => row.evidenceId = id && row.isLive
  | .artifact id => tables.artifacts.count fun row => row.artifactId = id && row.isLive
  | .record id => tables.memberRecords.count fun row => row.recordId = id && row.isLive

def bumpAll (tables : Tables) (changed : Nat) : List Hint → Tables × Nat
  | [] => (tables, changed)
  | hint :: hints => bumpAll (bump tables hint) (changed + bumped tables hint) hints

/-- The transaction of `flush_hints`. -/
def flushTaken (txn : Txn) (taken : List Hint) (tables : Tables) :
    Except Bypass (Tables × Nat) := do
  txn.begin
  txn.ensureLive
  txn.refuseAtWalThreshold
  txn.finish (.ok (bumpAll (nextPublicationSeq tables).1 0 taken))

/-- `flush_hints`: at most once a minute; on a bypass the taken hints are
dropped. -/
def flushHints (txn : Txn) (hints : Hints) (tables : Tables) :
    Hints × Except Bypass (Tables × Nat) :=
  if hints.flushed.any fun last => txn.before - last < leaseRenewal then (hints, .ok (tables, 0))
  else if hints.pending = [] then (hints, .ok (tables, 0))
  else
    let emptied := { hints with pending := [] }
    match flushTaken txn hints.pending tables with
    | .error bypass => (emptied, .error bypass)
    | .ok result => ({ emptied with flushed := some txn.before }, .ok result)

end Lint4d.Store
