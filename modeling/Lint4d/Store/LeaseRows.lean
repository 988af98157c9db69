import Lint4d.Store.Transactions

/-!
# What a step does to lease rows

An operation changes the lease rows in one of three ways: it deletes some, it
makes sure that the row of its own process exists, or it renews that row when a
renewal is due.  Only the last one also changes what the process remembers, and
a process never touches the values of another one's row.
-/

namespace Lint4d.Store

open Lint4d.Lib Lint4d.Cache Lint4d.Facts Table

variable {digests : Digests} {t t' : Tables} {cleanup : Bool} {now : Nat} {α : Type} {op : Op}
  {steps : List Step}

variable (t : Tables) (lease : ProcessLease) (now : Nat) (cleanup : Bool) in
/-- The committed lease rows and the remembered lease after an operation that the
process with `lease` runs at `now`; only a `cleanup` deletes rows. -/
inductive LeaseChange :
    Table LeaseRow → ProcessLease → Prop
  | same : LeaseChange t.processLeases lease
  | deleted {processLeases} (hcleanup : cleanup = true)
      (h : ∀ row ∈ processLeases, row ∈ t.processLeases) : LeaseChange processLeases lease
  | ensured (seconds : Nat) : LeaseChange
        (t.processLeases.insertOrIgnore (.new lease.id seconds t.publicationSeq)) lease
  | renewed (hdue : due lease now = true) :
      LeaseChange (renewRows t lease.id now) { lease with renewed := now }

variable {processLeases : Table LeaseRow} {lease : ProcessLease}

lemma LeaseChange.of_eq {cleanup : Bool} (h : processLeases = t.processLeases) :
    LeaseChange t lease now cleanup processLeases lease := by
  rw [h]
  exact .same

/-! ## Writes -/

variable {lease lease' : ProcessLease} {txn : Txn}

lemma write_leases {stmts : Tables → Except Bypass (Tables × α)} {value : α}
    (hstatements : ∀ t t' value, stmts t = .ok (t', value) → t'.processLeases = t.processLeases)
    (h : write txn lease t stmts = (lease', .ok (t', value))) :
    LeaseChange t lease txn.now cleanup t'.processLeases lease' := by
  obtain ⟨rfl, hrun⟩ := write_ok h
  rw [hstatements _ t' value hrun]
  unfold renewIfDue
  split
  · rename_i hdue
    exact .renewed hdue
  · exact .same

variable {builder : SnapshotBuilder}

/-- A renewal leaves the row of its lease with the time of the renewal. -/
lemma exists_mem_renewRows (t : Tables) (id : Nonce) (now : Nat) :
    ∃ row ∈ renewRows t id now, row.leaseId = id ∧ row.renewedUnixSeconds = now := by
  unfold renewRows
  split
  · rename_i hany
    obtain ⟨row, hrow, hid⟩ := any_eq_true.mp hany
    refine ⟨row.renew now t.publicationSeq, ?_, of_decide_eq_true hid, rfl⟩
    exact change_mem_update hrow hid
  · rename_i hnone
    refine ⟨.new id now t.publicationSeq, ?_, rfl, rfl⟩
    apply self_mem_insertOrIgnore
    intro row hrow hid
    exact hnone (any_eq_true.mpr ⟨row, hrow, decide_eq_true hid⟩)

/-- A change of the timer that was committed. -/
lemma LeaseChange.remembered (h : LeaseChange t lease now cleanup processLeases lease') :
    lease' = lease ∨ ∃ row ∈ processLeases,
      row.leaseId = lease'.id ∧ row.renewedUnixSeconds = lease'.renewed := by
  cases h with
  | same | deleted | ensured => exact .inl rfl
  | renewed => exact .inr (exists_mem_renewRows t lease.id now)

lemma insertSnapshot_leases {ctx : CanonicalKey} {id token : Nonce} (h : write txn lease t
      (insertSnapshot digests ctx id token lease txn.later) = (lease', .ok (t', builder))) :
    LeaseChange t lease txn.now cleanup t'.processLeases lease' := by
  obtain ⟨rfl, hrun⟩ := write_ok h
  obtain ⟨⟨_, _⟩, hkeyed, h⟩ := bind_ok_iff.mp hrun
  obtain ⟨_, -, h⟩ := bind_ok_iff.mp h
  obtain ⟨_, -, h⟩ := bind_ok_iff.mp h
  obtain ⟨rfl, -⟩ := Prod.mk.inj (pure_ok_iff.mp h)
  obtain ⟨_, rfl⟩ := putManifest_ok hkeyed
  change LeaseChange t lease txn.now cleanup
    ((renewIfDue txn lease t).1.processLeases.insertOrIgnore _) _
  by_cases hdue : due lease txn.now = true
  · -- a row that was just renewed is there
    obtain ⟨row, hrow, hid, -⟩ := exists_mem_renewRows t lease.id txn.now
    simp only [renewIfDue, hdue, if_true]
    rw [insertOrIgnore_of_key (show row ∈ (renew t lease txn.now).1.processLeases from hrow)
      (show row.leaseId = lease.id from hid)]
    exact .renewed hdue
  · simp only [renewIfDue, hdue]
    exact .ensured _

lemma Op.Writes.leases {stmts : Statements} {value : stmts.α}
    (hwrites : op.Writes digests txn lease stmts)
    (h : write txn lease t stmts.run = (lease', .ok (t', value))) :
    LeaseChange t lease txn.now cleanup t'.processLeases lease' := by
  cases hcont : op.isContent with
  | true => exact write_leases (fun _ _ _ hrun => (hwrites.contentEdits hcont hrun).frame.2.2) h
  | false =>
    cases hwrites with
    | beginSnapshot => exact insertSnapshot_leases h
    | addMembers =>
      refine write_leases (fun _ _ _ h => ?_) h
      obtain ⟨_, _, _, -, -, -, -, rfl, -⟩ := appendMembers_ok h
      rfl
    | sealSnapshot =>
      refine write_leases (fun _ _ _ h => ?_) h
      obtain ⟨_, -, -, -, -, hleases⟩ := sealStatements_ok h
      exact hleases
    | _ => cases hcont

/-! ## Maintenance -/

/-- The step leaves lease rows alone or deletes some. -/
def DeleteStep.SparesLeases (step : DeleteStep) : Prop :=
  ∀ scan left t, ∀ row ∈ (step scan left t).1.processLeases, row ∈ t.processLeases

lemma runDeletes_leases {scans : Nat → Scan} {steps : List DeleteStep}
    (hsteps : ∀ step ∈ steps, step.SparesLeases) (left : Nat) (t : Tables) :
    ∀ row ∈ (runDeletes scans steps left t).1.processLeases, row ∈ t.processLeases :=
  runDeletes_rel (R := fun t t' => ∀ row ∈ t'.processLeases, row ∈ t.processLeases)
    (fun _ _ => id) (fun _ _ _ h₁ h₂ row hrow => h₁ row (h₂ row hrow)) hsteps left t

lemma deleteSteps_leases (step : DeleteStep) (hstep : step ∈ deleteSteps) : step.SparesLeases := by
  simp only [deleteSteps, List.mem_cons, List.not_mem_nil, or_false] at hstep
  rcases hstep with rfl | rfl | rfl | rfl | rfl | rfl | rfl | rfl | rfl | rfl <;>
    exact fun _ _ _ _ => id

lemma reclaimSteps_leases (step : DeleteStep) (hstep : step ∈ reclaimSteps) :
    step.SparesLeases := by
  simp only [reclaimSteps, List.mem_cons, List.not_mem_nil, or_false] at hstep
  rcases hstep with rfl | rfl | rfl | rfl | rfl | rfl | rfl | rfl | rfl | rfl | rfl
  case inr.inl =>
    intro scan left t
    exact (deleted_deleteSome ..).of_new
  all_goals exact fun _ _ _ _ => id

lemma reclaimed_leases {scans : Bool → Nat → Scan} {scopes : RetiredScopes} {live : Bool}
    {budget spared : Nat} {row : LeaseRow} (hrow : row ∈ (reclaimLive (scans false) live spared
      (reclaimScope (scans true) scopes budget t).1).1.processLeases) :
    row ∈ t.processLeases := by
  have hlive : ∀ t, row ∈ (reclaimLive (scans false) live spared t).1.processLeases →
      row ∈ t.processLeases := by
    intro t
    unfold reclaimLive
    split
    · exact runDeletes_leases deleteSteps_leases spared t row
    · exact id
  have hscope : row ∈ (reclaimScope (scans true) scopes budget t).1.processLeases →
      row ∈ t.processLeases := by
    unfold reclaimScope
    split
    · exact runDeletes_leases reclaimSteps_leases budget t row
    · exact id
  exact hscope (hlive _ hrow)

/-! ## Operations -/

/-- The operations that delete lease rows. -/
def Op.isCleanup : Op → Bool
  | reclaim .. => true
  | expireLeases .. => true
  | _ => false

/-- What a committed operation does to the lease rows. -/
lemma Op.run_leases {reply : Reply} (h : op.run digests txn lease t = (lease', .ok (t', reply))) :
    LeaseChange t lease txn.now op.isCleanup t'.processLeases lease' := by
  cases hwrite : op.isWrite with
  | true =>
    obtain ⟨_, _, hwrites, h⟩ := run_write_ok hwrite h
    exact hwrites.leases h
  | false =>
    cases run_commits digests hwrite h with
    | @retireStep step => exact .of_eq (by cases step <;> rfl)
    | reclaim => exact .deleted rfl fun _ => reclaimed_leases
    | renewLease hdue => exact .renewed hdue
    | expireLeases => exact .deleted rfl fun row hrow => (mem_delete.mp hrow).1
    | holdSnapshot => exact .ensured _
    | flushHints => exact .of_eq (ContentEdits.frame (bumpAll_edits ..)).2.2
    | _ => exact .same

/-- What a process remembers after an operation, whether or not it committed. -/
def Remembers (lease : ProcessLease) (now : Nat) (lease' : ProcessLease) : Prop :=
  lease' = lease ∨ (due lease now = true ∧ lease' = { lease with renewed := now })

lemma write_remembers (txn : Txn) (lease : ProcessLease) (t : Tables)
    (stmts : Tables → Except Bypass (Tables × α)) :
    Remembers lease txn.now (write txn lease t stmts).1 := by
  unfold write
  split
  · exact .inl rfl
  · dsimp only [renewIfDue]
    split
    · rename_i hdue
      exact .inr ⟨hdue, rfl⟩
    · exact .inl rfl

lemma renewLease_remembers (txn : Txn) (lease : ProcessLease) (t : Tables) :
    Remembers lease txn.now (renewLease txn lease t).1 := by
  unfold renewLease
  split
  · split
    · exact .inl rfl
    · split
      · rename_i hdue
        split
        · exact .inl rfl
        · exact .inr ⟨hdue, rfl⟩
      · exact .inl rfl
  · exact .inl rfl

variable (digests) in
lemma Op.run_remembers (op : Op) (txn : Txn) (lease : ProcessLease) (t : Tables) :
    Remembers lease txn.now (op.run digests txn lease t).1 := by
  cases hwrite : op.isWrite with
  | true =>
    rcases run_write digests hwrite t with ⟨_, hrun⟩ | ⟨stmts, -, hrun⟩
    · exact .inl (by rw [hrun])
    · rw [hrun]
      exact write_remembers txn lease t stmts.run
  | false =>
    cases op with
    | renewLease => exact renewLease_remembers ..
    | _ => first | exact .inl rfl | cases hwrite

/-! ## Rows -/

/-- What a renewal of one lease does to a row. -/
lemma mem_renewRows {row : LeaseRow} (hrow : row ∈ t.processLeases) (id : Nonce) (now : Nat) :
    (row.leaseId ≠ id ∧ row ∈ renewRows t id now) ∨
      (row.leaseId = id ∧ row.renew now t.publicationSeq ∈ renewRows t id now) := by
  unfold renewRows
  by_cases hid : row.leaseId = id
  · have hany : (t.processLeases.any fun row => row.leaseId = id) = true :=
      any_eq_true.mpr ⟨row, hrow, decide_eq_true hid⟩
    rw [if_pos hany]
    refine .inr ⟨hid, ?_⟩
    exact change_mem_update hrow (decide_eq_true hid)
  · refine .inl ⟨hid, ?_⟩
    split
    · exact (mem_update _ _ _).mpr (.inr ⟨hrow, decide_eq_false hid⟩)
    · exact mem_insertOrIgnore_of_mem hrow

/-- The fate of one row in an operation of the process with `lease`: it stays, a
cleanup deletes it, or it is that process's own and is renewed. -/
lemma LeaseChange.row (h : LeaseChange t lease now cleanup processLeases lease') {row : LeaseRow}
    (hrow : row ∈ t.processLeases) :
    (row ∈ processLeases ∧ (lease.id = row.leaseId → lease' = lease)) ∨
      (cleanup = true ∧ ∀ other ∈ processLeases, other.leaseId ≠ row.leaseId) ∨
      (lease.id = row.leaseId ∧ due lease now = true ∧ lease' = { lease with renewed := now } ∧
        row.renew now t.publicationSeq ∈ processLeases) := by
  cases h with
  | same => exact .inl ⟨hrow, fun _ => rfl⟩
  | deleted hcleanup hsub =>
    by_cases hkept : row ∈ processLeases
    · exact .inl ⟨hkept, fun _ => rfl⟩
    · refine .inr (.inl ⟨hcleanup, ?_⟩)
      intro other hother hid
      exact hkept (eq_of_key (hsub other hother) hrow hid ▸ hother)
  | ensured => exact .inl ⟨mem_insertOrIgnore_of_mem hrow, fun _ => rfl⟩
  | renewed hdue =>
    rcases mem_renewRows hrow lease.id now with ⟨hid, hkept⟩ | ⟨hid, hrenewed⟩
    · exact .inl ⟨hkept, fun hsame => absurd hsame.symm hid⟩
    · exact .inr (.inr ⟨hid.symm, hdue, rfl, hrenewed⟩)

/-! ## Steps -/

/-- The lease that a step opens a store with. -/
def Step.opened (step : Step) : Option Nonce :=
  match step.action with
  | .openStore id => some id
  | _ => none

def Step.isCleanup (step : Step) : Bool :=
  match step.action with
  | .run op => op.isCleanup
  | _ => false

/-- The stores that are open have leases of their own, all of which `opened` lists. -/
structure World.DistinctLeases (world : World) (opened : List Nonce) : Prop where
  process_eq : ∀ {p q lease lease'}, world.leases p = some lease → world.leases q = some lease' →
    lease.id = lease'.id → p = q
  listed : ∀ {p lease}, world.leases p = some lease → lease.id ∈ opened

lemma Remembers.id_eq (h : Remembers lease now lease') : lease'.id = lease.id := by
  rcases h with rfl | ⟨-, rfl⟩ <;> rfl

lemma openLease_id (txn : Txn) (id : Nonce) (t : Tables) : (openLease txn id t).1.id = id := by
  unfold openLease
  split <;> rfl

lemma openLease_ok {id : Nonce} (h : openLease txn id t = (lease, .ok (t', ()))) :
    lease = { ProcessLease.new id with renewed := txn.now } ∧
      t' = { t with processLeases := renewRows t id txn.now } := by
  unfold openLease at h
  split at h
  · cases h
  · obtain ⟨rfl, hres⟩ := Prod.mk.inj h
    obtain ⟨rfl, -⟩ := Prod.mk.inj (Except.ok.inj (Txn.finish_ok hres))
    exact ⟨rfl, rfl⟩

lemma release_ok (h : release txn lease t = .ok (t', ())) {row : LeaseRow} :
    row ∈ t'.processLeases ↔ row ∈ t.processLeases ∧ row.leaseId ≠ lease.id := by
  obtain rfl := Txn.tables_of_finish (ok_of_bind_ok h)
  simp [mem_delete]

variable {world world' : World}

/-- Where the leases of the open stores come from. -/
lemma World.StepsTo.leases {step : Step} (h : world.StepsTo digests step world') {p : Nat}
    {lease' : ProcessLease} (hp : world'.leases p = some lease') :
    (∃ lease, world.leases p = some lease ∧ Remembers lease step.txn.now lease') ∨
      (step.process = p ∧ step.opened = some lease'.id) := by
  by_cases heq : p = step.process
  · subst heq
    cases h with
    | idle => exact .inl ⟨lease', hp, .inl rfl⟩
    | @opened id lease tables haction _ hopen =>
      rw [world.after_leases_self] at hp
      obtain rfl := Option.some.inj hp
      have hid := openLease_id step.txn id world.tables
      rw [hopen] at hid
      exact .inr ⟨rfl, by simp [Step.opened, haction, ← hid]⟩
    | dropped =>
      rw [world.after_leases_self] at hp
      cases hp
    | @failed op lease remembered bypass haction hlease hrun
    | @committed op lease remembered tables _ haction hlease hrun =>
      rw [world.after_leases_self] at hp
      obtain rfl := Option.some.inj hp
      have hrem := op.run_remembers digests step.txn lease world.tables
      rw [hrun] at hrem
      exact .inl ⟨lease, hlease, hrem⟩
  · rw [h.leases_of_ne heq] at hp
    exact .inl ⟨lease', hp, .inl rfl⟩

lemma World.DistinctLeases.step {opened : List Nonce} {step : Step}
    (h : world.DistinctLeases opened) (hstep : world.StepsTo digests step world')
    (hfresh : ∀ id, step.opened = some id → ¬ id ∈ opened) :
    world'.DistinctLeases (opened ++ step.opened.toList) where
  process_eq := by
    intro p q lease lease' hp hq hid
    rcases hstep.leases hp with ⟨old, hold, hrem⟩ | ⟨hpStep, hpOpened⟩
    · rcases hstep.leases hq with ⟨old', hold', hremembers'⟩ | ⟨-, hqOpened⟩
      · exact h.process_eq hold hold' (hrem.id_eq.symm.trans (hid.trans hremembers'.id_eq))
      · have hlisted := h.listed hold
        rw [← hrem.id_eq, hid] at hlisted
        exact absurd hlisted (hfresh _ hqOpened)
    · rcases hstep.leases hq with ⟨old', hold', hremembers'⟩ | ⟨hqStep, -⟩
      · have hlisted := h.listed hold'
        rw [← hremembers'.id_eq, ← hid] at hlisted
        exact absurd hlisted (hfresh _ hpOpened)
      · exact hpStep.symm.trans hqStep
  listed := by
    intro p lease hp
    rcases hstep.leases hp with ⟨old, hold, hrem⟩ | ⟨-, hopened⟩
    · exact List.mem_append_left _ (hrem.id_eq ▸ h.listed hold)
    · exact List.mem_append_right _ (by simp [hopened])

/-- What becomes of the committed row of an open store, and of the lease its process
remembers, in one step. -/
inductive World.RowFate (digests : Digests) (world world' : World) (step : Step) (p : Nat)
    (lease : ProcessLease) (row : LeaseRow) : Prop
  | kept (hrow : row ∈ world'.tables.processLeases) (hlease : world'.leases p = some lease)
  | deleted (hcleanup : step.isCleanup = true)
      (hgone : ∀ other ∈ world'.tables.processLeases, other.leaseId ≠ row.leaseId)
  | renewed (hprocess : step.process = p) (hdue : due lease step.txn.now = true)
      (hrow : row.renew step.txn.now world.tables.publicationSeq ∈ world'.tables.processLeases)
      (hlease : world'.leases p = some { lease with renewed := step.txn.now })
  /-- The process remembers a renewal that was rolled back. -/
  | rolledBack (hprocess : step.process = p) (hdue : due lease step.txn.now = true)
      (hrow : row ∈ world'.tables.processLeases)
      (hlease : world'.leases p = some { lease with renewed := step.txn.now })
      (hfailed : ∃ op bypass, step.action = .run op ∧ op.run digests step.txn lease world.tables =
        ({ lease with renewed := step.txn.now }, .error bypass))
  | dropped (hlease : world'.leases p = none)

lemma World.StepsTo.rowFate {step : Step} {opened : List Nonce}
    (h : world.StepsTo digests step world') (hdist : world.DistinctLeases opened)
    (hfresh : ∀ id, step.opened = some id → ¬ id ∈ opened) {p : Nat}
    (hlease : world.leases p = some lease) {row : LeaseRow}
    (hrow : row ∈ world.tables.processLeases) (hid : row.leaseId = lease.id) :
    world.RowFate digests world' step p lease row := by
  cases h with
  | idle => exact .kept hrow hlease
  | @opened id _ tables haction hclosed hopen =>
    have hp : p ≠ step.process := by
      rintro rfl
      rw [hclosed] at hlease
      cases hlease
    refine .kept ?_ ((world.after_leases_of_ne hp ..).trans hlease)
    have hne : row.leaseId ≠ id := by
      intro hsame
      refine hfresh id (by simp [Step.opened, haction]) ?_
      rw [← hsame, hid]
      exact hdist.listed hlease
    obtain ⟨rfl, rfl⟩ := openLease_ok hopen
    rcases mem_renewRows hrow id step.txn.now with ⟨-, hkept⟩ | ⟨hsame, -⟩
    · exact hkept
    · exact absurd hsame hne
  | @dropped other tables haction hother htables =>
    by_cases hp : p = step.process
    · refine .dropped ?_
      rw [hp]
      exact world.after_leases_self ..
    · refine .kept ?_ ((world.after_leases_of_ne hp ..).trans hlease)
      rcases htables with rfl | hrel
      · exact hrow
      · refine (release_ok hrel).mpr ⟨hrow, ?_⟩
        intro hsame
        exact hp (hdist.process_eq hlease hother (hid.symm.trans hsame))
  | @failed op other remembered bypass haction hother hrun =>
    by_cases hp : p = step.process
    · subst hp
      obtain rfl := Option.some.inj (hother.symm.trans hlease)
      have hrem := op.run_remembers digests step.txn other world.tables
      rw [hrun] at hrem
      rcases hrem with rfl | ⟨hdue, rfl⟩
      · exact .kept hrow (world.after_leases_self ..)
      · exact .rolledBack rfl hdue hrow (world.after_leases_self ..) ⟨op, bypass, haction, hrun⟩
    · exact .kept hrow ((world.after_leases_of_ne hp ..).trans hlease)
  | @committed op other remembered tables _ haction hother hrun =>
    by_cases hp : p = step.process
    · subst hp
      obtain rfl := Option.some.inj (hother.symm.trans hlease)
      rcases (Op.run_leases hrun).row hrow with ⟨hkept, hsame⟩ | ⟨hcleanup, hgone⟩ | hrenewed
      · obtain rfl := hsame hid.symm
        exact .kept hkept (world.after_leases_self ..)
      · exact .deleted (by simpa [Step.isCleanup, haction] using hcleanup) hgone
      · obtain ⟨-, hdue, rfl, hnew⟩ := hrenewed
        exact .renewed rfl hdue hnew (world.after_leases_self ..)
    · rcases (Op.run_leases hrun).row hrow with ⟨hkept, -⟩ | ⟨hcleanup, hgone⟩ | ⟨hsame, -⟩
      · exact .kept hkept ((world.after_leases_of_ne hp ..).trans hlease)
      · exact .deleted (by simpa [Step.isCleanup, haction] using hcleanup) hgone
      · exact absurd (hdist.process_eq hlease hother (hid.symm.trans hsame.symm)) hp

/-- A row of a lease that was opened stays, is deleted, or is renewed by the process
that has the lease. -/
lemma World.StepsTo.row {step : Step} {opened : List Nonce}
    (h : world.StepsTo digests step world') (hfresh : ∀ id, step.opened = some id → ¬ id ∈ opened)
    {row : LeaseRow} (hrow : row ∈ world.tables.processLeases) (hlisted : row.leaseId ∈ opened) :
    row ∈ world'.tables.processLeases ∨
      (∀ other ∈ world'.tables.processLeases, other.leaseId ≠ row.leaseId) ∨
      ∃ lease, world.leases step.process = some lease ∧ lease.id = row.leaseId ∧
        due lease step.txn.now = true ∧
        row.renew step.txn.now world.tables.publicationSeq ∈ world'.tables.processLeases ∧
        world'.leases step.process = some { lease with renewed := step.txn.now } := by
  cases h with
  | idle => exact .inl hrow
  | @opened id lease tables haction _ hopen =>
    obtain ⟨rfl, rfl⟩ := openLease_ok hopen
    rcases mem_renewRows hrow id step.txn.now with ⟨-, hkept⟩ | ⟨hsame, -⟩
    · exact .inl hkept
    · exact absurd (hsame ▸ hlisted) (hfresh id (by simp [Step.opened, haction]))
  | @dropped lease tables haction hlease htables =>
    rcases htables with rfl | hrel
    · exact .inl hrow
    · by_cases hsame : row.leaseId = lease.id
      · refine .inr (.inl ?_)
        intro other hother heq
        exact ((release_ok hrel).mp hother).2 (heq.trans hsame)
      · exact .inl ((release_ok hrel).mpr ⟨hrow, hsame⟩)
  | failed => exact .inl hrow
  | @committed _ lease _ tables _ haction hlease hrun =>
    rcases (Op.run_leases hrun).row hrow with ⟨hkept, -⟩ | ⟨-, hgone⟩ | ⟨hid, hdue, rfl, hnew⟩
    · exact .inl hkept
    · exact .inr (.inl hgone)
    · exact .inr (.inr ⟨lease, hlease, hid, hdue, hnew, world.after_leases_self ..⟩)

/-- The leases that a run opens stores with. -/
def openedLeases (steps : List Step) : List Nonce := steps.filterMap Step.opened

lemma openedLeases_append_singleton (steps : List Step) (step : Step) :
    openedLeases (steps ++ [step]) = openedLeases steps ++ step.opened.toList := by
  unfold openedLeases
  rw [List.filterMap_append]
  cases hopened : step.opened <;> simp [hopened]

lemma openedLeases_nodup {step : Step}
    (hfresh : (openedLeases (steps ++ [step])).Nodup) : (openedLeases steps).Nodup := by
  rw [openedLeases_append_singleton] at hfresh
  exact (List.nodup_append.mp hfresh).1

/-- A fresh lease is not among the earlier ones. -/
lemma not_mem_openedLeases {step : Step} {id : Nonce}
    (hnodup : (openedLeases (steps ++ [step])).Nodup) (hopened : step.opened = some id) :
    ¬ id ∈ openedLeases steps := by
  intro hmem
  rw [openedLeases_append_singleton, hopened] at hnodup
  exact (List.nodup_append.mp hnodup).2.2 id hmem id (by simp) rfl

variable (digests) in
lemma World.run_distinctLeases (seq : Nat) {steps : List Step}
    (hfresh : (openedLeases steps).Nodup) :
    ((World.initial seq).run digests steps).DistinctLeases (openedLeases steps) := by
  induction steps using List.reverseRecOn with
  | nil =>
    constructor
    · intro p q lease lease' hp
      cases hp
    · intro p lease hp
      cases hp
  | append_singleton steps step ih =>
    rw [World.run_append_singleton, openedLeases_append_singleton]
    apply (ih (openedLeases_nodup hfresh)).step (World.stepsTo_step digests _ step)
    intro id hopened
    exact not_mem_openedLeases hfresh hopened

end Lint4d.Store
