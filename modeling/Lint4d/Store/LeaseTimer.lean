import Lint4d.Store.LeaseRows
import Lint4d.Store.Reachability

/-!
# The lease timer and the committed renewal

`renew` sets the process's timer inside the caller's transaction, before it is
known whether the transaction commits.  A write that is refused after its
renewal rolls the row back but not the timer, and the process then believes for
a minute that its lease was renewed.

While no such write fails, the timer is the time of the committed row.
-/

namespace Lint4d.Store

open Lint4d.Lib Lint4d.Cache Lint4d.Facts World

variable (digests : Digests) {α : Type} {txn : Txn} {op : Op} {steps : List Step}
  {world world' : World} {p : Nat}

/-! ## Writes that fail after a renewal -/

/-- The tables accept the statements of the operation: the checks it makes inside
its transaction pass there. -/
def Op.Accepted (op : Op) (txn : Txn) (lease : ProcessLease) (t : Tables) : Prop :=
  match op with
  | publishKey key => ∃ result, putManifest digests t key = .ok result
  | publishArtifact artifact =>
    ∀ prepared, prepareArtifact digests artifact = .ok prepared →
      ∃ result, insertPrepared digests artifact prepared t = .ok result
  | publishFacts key facts =>
    ∀ encoded, encodeFacts facts = .ok encoded → let artifact : ArtifactWrite :=
        { key, supplemental := encoded.supplemental, rows := writeRows encoded }
      ∀ prepared, prepareArtifact digests artifact = .ok prepared →
        ∃ result, insertPrepared digests artifact prepared t = .ok result
  | publishFactsWithEvidence key facts evidence =>
    ∀ artifact prepared concluded,
      prepareFactsWithEvidence digests key facts evidence = .ok (artifact, prepared, concluded) →
      ∃ result, insertWithEvidence digests artifact evidence.context prepared concluded t =
        .ok result
  | publishEvidence target evidence =>
    ∀ prepared, prepareTargetEvidence digests target evidence = .ok prepared →
      ∃ result, insertTargetEvidence digests target evidence.context prepared t = .ok result
  | publishMemberRecord record =>
    ∀ encoded, prepareRecord digests record = .ok encoded →
      ∃ result, putRecord record encoded t = .ok result
  | beginSnapshot context id token =>
    ∃ result, insertSnapshot digests context id token lease txn.later t = .ok result
  | addMembers builder records => ∃ result, appendMembers builder records t = .ok result
  | sealSnapshot builder terms count digest =>
    ∃ result, sealStatements builder terms count digest t = .ok result
  | _ => True

variable {digests} {t : Tables} {lease lease' : ProcessLease} {bypass : Bypass}

/-- A write that renewed, whose statements are accepted, fails only by its commit. -/
lemma write_failed {stmts : Tables → Except Bypass (Tables × α)}
    (h : write txn lease t stmts = (lease', .error bypass)) (hne : lease' ≠ lease)
    (haccepted : ∃ result, stmts (renew t lease txn.now).1 = .ok result) :
    txn.commit ≠ .ok () := by
  intro hcommit
  obtain ⟨result, hres⟩ := haccepted
  unfold write at h
  split at h
  · obtain ⟨rfl, -⟩ := Prod.mk.inj h
    exact hne rfl
  · dsimp only [renewIfDue] at h
    split at h
    · rw [hres] at h
      obtain ⟨-, hfinish⟩ := Prod.mk.inj h
      simp [Txn.finish, hcommit, bind, Except.bind, pure, Except.pure] at hfinish
    · obtain ⟨rfl, -⟩ := Prod.mk.inj h
      exact hne rfl

lemma renewLease_failed (h : renewLease txn lease t = (lease', .error bypass))
    (hne : lease' ≠ lease) : txn.commit ≠ .ok () := by
  intro hcommit
  unfold renewLease at h
  split at h
  · split at h
    · obtain ⟨rfl, -⟩ := Prod.mk.inj h
      exact hne rfl
    · split at h
      · split at h
        · obtain ⟨rfl, -⟩ := Prod.mk.inj h
          exact hne rfl
        · obtain ⟨-, hfinish⟩ := Prod.mk.inj h
          simp [Txn.finish, hcommit, bind, Except.bind, pure, Except.pure] at hfinish
      · cases h
  · cases h

lemma keepBoth_error {reply : α → Reply} {result : ProcessLease × Except Bypass (Tables × α)}
    (h : keepBoth reply result = (lease, .error bypass)) : result = (lease, .error bypass) := by
  obtain ⟨hlease, hkept⟩ := Prod.mk.inj h
  obtain ⟨_, result⟩ := result
  cases result with
  | error error =>
    cases hkept
    exact Prod.ext hlease rfl
  | ok => cases hkept

lemma Op.Writes.accepted {stmts : Statements} (hwrites : op.Writes digests txn lease stmts)
    (h : op.Accepted digests txn lease t) : ∃ result, stmts.run t = .ok result := by
  cases hwrites with
  | publishKey | beginSnapshot | addMembers | sealSnapshot => exact h
  | publishArtifact hprep => exact h _ hprep
  | publishFacts henc hprep => exact h _ henc _ hprep
  | publishFactsWithEvidence hprep => exact h _ _ _ hprep
  | publishEvidence hprep => exact h _ hprep
  | publishMemberRecord henc => exact h _ henc

/-- An operation that remembers a renewal and fails was refused by the tables or by
its commit. -/
lemma Op.run_failed (h : op.run digests txn lease t = (lease', .error bypass))
    (hne : lease' ≠ lease) (haccepted : op.Accepted digests txn lease (renew t lease txn.now).1) :
    txn.commit ≠ .ok () := by
  cases hwrite : op.isWrite with
  | true =>
    rcases run_write digests hwrite t with ⟨_, hrun⟩ | ⟨_, hwrites, hrun⟩
    · exact absurd (Prod.mk.inj (hrun.symm.trans h)).1.symm hne
    · exact write_failed (keepBoth_error (hrun.symm.trans h)) hne (hwrites.accepted haccepted)
  | false =>
    cases op with
    | renewLease => exact renewLease_failed (keepBoth_error h) hne
    | _ => first | exact absurd (Prod.mk.inj h).1.symm hne | cases hwrite

/-- The operations that renew a lease when a renewal is due. -/
def Op.renews : Op → Bool
  | publishKey .. => true
  | publishArtifact .. => true
  | publishFacts .. => true
  | publishFactsWithEvidence .. => true
  | publishEvidence .. => true
  | publishMemberRecord .. => true
  | beginSnapshot .. => true
  | addMembers .. => true
  | sealSnapshot .. => true
  | renewLease => true
  | _ => false

lemma Op.renews_of_run {result : Committed} (h : op.run digests txn lease t = (lease', result))
    (hne : lease' ≠ lease) : op.renews = true := by
  cases op
  case retireBuild | retireSnapshot | retireMemberRecord | retireStep | reclaim | expireLeases |
      holdSnapshot | releaseSnapshot | flushHints =>
    exact absurd (Prod.mk.inj h).1.symm hne
  all_goals rfl

/-! ## Runs -/

/-- In the state before the step, an operation for which a renewal is due will not
be refused by the tables, nor by its commit. -/
def Step.RenewalAccepted (digests : Digests) (world : World) (step : Step) : Prop :=
  ∀ op lease, step.action = .run op → op.renews = true →
    world.leases step.process = some lease → due lease step.txn.now = true →
    step.txn.commit = .ok () ∧
      op.Accepted digests step.txn lease (renew world.tables lease step.txn.now).1

/-- Some `expire_leases` or `reclaim` of the run deleted the row of the lease. -/
def LeaseRowDeleted (digests : Digests) (seq : Nat) (steps : List Step) (id : Nonce) : Prop :=
  ∃ earlier step later, steps = earlier ++ step :: later ∧ step.isCleanup = true ∧
    (∃ row ∈ ((initial seq).run digests earlier).tables.processLeases, row.leaseId = id) ∧
    ∀ row ∈ ((initial seq).run digests (earlier ++ [step])).tables.processLeases, row.leaseId ≠ id

/-- The committed row of the lease has the time that the process remembers. -/
def World.HasRenewal (world : World) (lease : ProcessLease) : Prop :=
  ∃ row ∈ world.tables.processLeases,
    row.leaseId = lease.id ∧ row.renewedUnixSeconds = lease.renewed

/-- What the timer of one process says about the committed rows of a run. -/
structure TimerCommitted (digests : Digests) (seq : Nat) (steps : List Step)
    (lease : ProcessLease) : Prop where
  row : ((initial seq).run digests steps).HasRenewal lease ∨
    LeaseRowDeleted digests seq steps lease.id
  once : ∃ earlier later, steps = earlier ++ later ∧
    ((initial seq).run digests earlier).HasRenewal lease

lemma LeaseRowDeleted.append {seq : Nat} {id : Nonce} (h : LeaseRowDeleted digests seq steps id)
    (step : Step) : LeaseRowDeleted digests seq (steps ++ [step]) id := by
  obtain ⟨earlier, deleting, later, rfl, hrest⟩ := h
  exact ⟨earlier, deleting, later ++ [step], by simp, hrest⟩

/-- A renewal that is committed now. -/
lemma TimerCommitted.of_hasRenewal {seq : Nat}
    (h : ((initial seq).run digests steps).HasRenewal lease) :
    TimerCommitted digests seq steps lease where
  row := .inl h
  once := ⟨steps, [], (List.append_nil steps).symm, h⟩

/-- What a process with an open store remembers after a step: the same, or a
renewal that is committed or that failed. -/
lemma World.StepsTo.remembered {step : Step} (h : world.StepsTo digests step world')
    (hlease : world.leases p = some lease) (hlease' : world'.leases p = some lease') :
    lease' = lease ∨ world'.HasRenewal lease' ∨
      (step.process = p ∧ lease' ≠ lease ∧ due lease step.txn.now = true ∧
        ∃ op bypass, step.action = .run op ∧
          op.run digests step.txn lease world.tables = (lease', .error bypass)) := by
  by_cases hsame : lease' = lease
  · exact .inl hsame
  by_cases hp : p = step.process
  · subst hp
    cases h with
    | idle => exact .inl (Option.some.inj (hlease'.symm.trans hlease))
    | opened _ hclosed =>
      rw [hclosed] at hlease
      cases hlease
    | dropped =>
      rw [world.after_leases_self] at hlease'
      cases hlease'
    | @failed op other remembered bypass haction hother hrun =>
      obtain rfl := Option.some.inj (hother.symm.trans hlease)
      rw [world.after_leases_self] at hlease'
      obtain rfl := Option.some.inj hlease'
      have hrem := op.run_remembers digests step.txn other world.tables
      rw [hrun] at hrem
      have hdue := (hrem.resolve_left hsame).1
      exact .inr (.inr ⟨rfl, hsame, hdue, op, bypass, haction, hrun⟩)
    | @committed op other remembered tables _ haction hother hrun =>
      obtain rfl := Option.some.inj (hother.symm.trans hlease)
      rw [world.after_leases_self] at hlease'
      obtain rfl := Option.some.inj hlease'
      exact (Op.run_leases hrun).remembered.imp id .inl
  · exact .inl (Option.some.inj (hlease'.symm.trans ((h.leases_of_ne hp).trans hlease)))

/-- One more step, for a process whose store was open before it. -/
lemma TimerCommitted.step {seq : Nat} {step : Step} (h : TimerCommitted digests seq steps lease)
    (hfresh : (openedLeases (steps ++ [step])).Nodup)
    (haccepted : step.process = p → step.RenewalAccepted digests ((initial seq).run digests steps))
    (hlease : ((initial seq).run digests steps).leases p = some lease)
    (hlease' : ((initial seq).run digests (steps ++ [step])).leases p = some lease') :
    TimerCommitted digests seq (steps ++ [step]) lease' := by
  have hstep := stepsTo_step digests ((initial seq).run digests steps) step
  rw [← run_append_singleton] at hstep
  rcases hstep.remembered hlease hlease' with rfl | hrenewal | hfailed
  · -- the timer stays; its row stays too, or is deleted
    constructor
    · rcases h.row with ⟨row, hrow, hid, hrenewed⟩ | hdeleted
      · have hdist := run_distinctLeases digests seq (openedLeases_nodup hfresh)
        have hnew : ∀ id, step.opened = some id → ¬ id ∈ openedLeases steps :=
          fun id => not_mem_openedLeases hfresh
        cases hstep.rowFate hdist hnew hlease hrow hid with
        | kept hkept => exact .inl ⟨row, hkept, hid, hrenewed⟩
        | deleted hcleanup hgone =>
          refine .inr ⟨steps, step, [], rfl, hcleanup, ⟨row, hrow, hid⟩, ?_⟩
          exact fun other hother => hid ▸ hgone other hother
        | renewed _ hdue hrow' hlease'' =>
          have heq := Option.some.inj (hlease'.symm.trans hlease'')
          exact .inl ⟨_, hrow', hid, congrArg ProcessLease.renewed heq.symm⟩
        | rolledBack _ _ hkept => exact .inl ⟨row, hkept, hid, hrenewed⟩
        | dropped hnone =>
          rw [hnone] at hlease'
          cases hlease'
      · exact .inr (hdeleted.append step)
    · obtain ⟨earlier, later, rfl, honce⟩ := h.once
      exact ⟨earlier, later ++ [step], by simp, honce⟩
  · exact .of_hasRenewal hrenewal
  · -- a renewal that failed would have been refused
    obtain ⟨rfl, hne, hdue, op, _, haction, hrun⟩ := hfailed
    obtain ⟨hcommit, haccept⟩ :=
      haccepted rfl op lease haction (Op.renews_of_run hrun hne) hlease hdue
    exact absurd hcommit (Op.run_failed hrun hne haccept)

/-- A store that a step opens remembers the renewal that it commits. -/
lemma World.StepsTo.hasRenewal_of_opened {step : Step} (h : world.StepsTo digests step world')
    (hclosed : world.leases p = none) (hlease : world'.leases p = some lease) :
    world'.HasRenewal lease := by
  by_cases hp : p = step.process
  · subst hp
    cases h with
    | idle =>
      rw [hclosed] at hlease
      cases hlease
    | opened _ _ hopen =>
      rw [world.after_leases_self] at hlease
      obtain rfl := Option.some.inj hlease
      obtain ⟨rfl, rfl⟩ := openLease_ok hopen
      exact exists_mem_renewRows world.tables _ step.txn.now
    | dropped _ hopen | failed _ hopen | committed _ hopen =>
      rw [hclosed] at hopen
      cases hopen
  · have hkept := h.leases_of_ne hp
    rw [hkept, hclosed] at hlease
    cases hlease

/-- In every run in which no renewing operation of `p` is refused while a renewal
is due, the timer of `p` is the time of a committed renewal: while no renewal is
due, its row, unless it was deleted, was renewed less than a minute ago. -/
theorem leaseTimer_not_ahead (seq : Nat) (steps : List Step) (p : Nat)
    (hfresh : (openedLeases steps).Nodup) (haccepted : (initial seq).Along digests
      (fun world step => step.process = p → step.RenewalAccepted digests world) steps)
    (lease : ProcessLease) (hlease : ((initial seq).run digests steps).leases p = some lease) :
    (∀ now, due lease now = false → (∃ row ∈ ((initial seq).run digests steps).tables.processLeases,
        row.leaseId = lease.id ∧ now < row.renewedUnixSeconds + leaseRenewal) ∨
      LeaseRowDeleted digests seq steps lease.id) ∧
    ∃ earlier later, steps = earlier ++ later ∧
      ∃ row ∈ ((initial seq).run digests earlier).tables.processLeases,
        row.leaseId = lease.id ∧ row.renewedUnixSeconds = lease.renewed := by
  have hcommitted : TimerCommitted digests seq steps lease := by
    induction steps using List.reverseRecOn generalizing lease with
    | nil => cases hlease
    | append_singleton steps step ih =>
      have hprefix := openedLeases_nodup hfresh
      obtain ⟨hearlier, hlast⟩ := (along_append_singleton digests).mp haccepted
      cases hbefore : ((initial seq).run digests steps).leases p with
      | none =>
        apply TimerCommitted.of_hasRenewal
        have hstep := stepsTo_step digests ((initial seq).run digests steps) step
        rw [← run_append_singleton] at hstep
        exact hstep.hasRenewal_of_opened hbefore hlease
      | some old => exact (ih hprefix hearlier old hbefore).step hfresh hlast hbefore hlease
  refine ⟨?_, hcommitted.once⟩
  intro now hdue
  refine hcommitted.row.imp ?_ id
  intro ⟨row, hrow, hid, hrenewed⟩
  refine ⟨row, hrow, hid, ?_⟩
  have hclose : now - lease.renewed < leaseRenewal := by
    simpa [due] using hdue
  omega

/-- Open a store and publish a key when a renewal is due. -/
def renewingRun : List Step := [
  { process := 0, action := .openStore (.ofByte 9), txn := .calm 1000 },
  { process := 0, action := .run (.publishKey projectContext), txn := .calm 1060 }]

theorem leaseTimer_not_ahead_renewingRun :
    ∃ earlier later, renewingRun = earlier ++ later ∧
      ∃ row ∈ ((initial 0).run lengthDigests earlier).tables.processLeases,
        row.leaseId = .ofByte 9 ∧ row.renewedUnixSeconds = 1060 := by
  have hlease : ((initial 0).run lengthDigests renewingRun).leases 0 =
      some { id := .ofByte 9, renewed := 1060 } := by
    decide +kernel
  refine (leaseTimer_not_ahead 0 renewingRun 0 (by decide) ⟨?_, ?_, trivial⟩ _ hlease).2
  · intro _ op lease haction
    cases haction
  · intro _ op lease haction _ _ _
    cases haction
    exact ⟨rfl, _, rfl⟩

/-- Open a store, begin a snapshot and retire it; a minute later the builder's next
write renews the lease and is then fenced. -/
def fencedRun : List Step := [{ process := 0, action := .openStore (.ofByte 9), txn := .calm 1000 },
  { process := 0, action := .run (.beginSnapshot projectContext (.ofByte 3) (.ofByte 4)),
    txn := .calm 1000 },
  { process := 0, action := .run (.retireBuild (projectBuilder 0)), txn := .calm 1000 },
  { process := 0, action := .run (.addMembers (projectBuilder 0) []), txn := .calm 1060 }]

theorem leaseTimer_ahead_fencedRun :
    ∃ lease, ((initial 0).run lengthDigests fencedRun).leases 0 = some lease ∧
      due lease 1070 = false ∧ ¬ LeaseRowDeleted lengthDigests 0 fencedRun lease.id ∧
      ∀ row ∈ ((initial 0).run lengthDigests fencedRun).tables.processLeases,
        row.leaseId = lease.id → row.renewedUnixSeconds ≤ 1070 - leaseRenewal := by
  refine ⟨{ id := .ofByte 9, renewed := 1060 }, by decide +kernel, by decide, ?_, ?_⟩
  · rintro ⟨_, step, _, hsteps, hcleanup, -⟩
    have hnone : ∀ step ∈ fencedRun, step.isCleanup = false := by decide
    rw [hnone step (by simp [hsteps])] at hcleanup
    cases hcleanup
  · have hrows : ∀ row ∈ ((initial 0).run lengthDigests fencedRun).tables.processLeases.rows,
        row.renewedUnixSeconds ≤ 1070 - leaseRenewal := by
      decide +kernel
    exact fun row hrow _ => hrows row hrow

end Lint4d.Store
