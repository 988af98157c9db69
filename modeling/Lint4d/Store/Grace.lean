import Lint4d.Store.LeaseRows
import Lint4d.Store.Reachability

/-!
# The grace window

A row that a process publishes takes a sequence above the one its lease was last
renewed at.  The floor of a lease only reaches that sequence with the second
renewal after the publication, and renewals of one process are at least a
minute apart.  Until then no retirement step takes the row, for a step stays
behind the floors of all live leases.
-/

namespace Lint4d.Store

open Lint4d.Lib Lint4d.Cache Lint4d.Facts World List

variable {digests : Digests} {t t' : Tables} {seq' now : Nat} {op : Op} {txn : Txn} {row : LeaseRow}
  {opened : List Nonce}

/-! ## Published contents -/

/-- A row that is published and retired by itself. -/
inductive Content where
  | artifact (id : Digest)
  | evidence (id : Digest)
  | record (id : Digest)
deriving DecidableEq

def Tables.IsLive (t : Tables) : Content → Prop
  | .artifact id => t.ArtifactIsLive id
  | .evidence id => t.EvidenceIsLive id
  | .record id => t.RecordIsLive id

instance (t : Tables) (content : Content) : Decidable (t.IsLive content) :=
  match content with
  | .artifact id => inferInstanceAs (Decidable (∃ row ∈ t.artifacts, row.artifactId = id ∧ _))
  | .evidence id => inferInstanceAs (Decidable (∃ row ∈ t.evidenceSets, row.evidenceId = id ∧ _))
  | .record id => inferInstanceAs (Decidable (∃ row ∈ t.memberRecords, row.recordId = id ∧ _))

/-- The content's row, if any, was last published after the sequence was `seq`. -/
def Tables.RowAbove (t : Tables) (seq : Nat) : Content → Prop
  | .artifact id => ∀ row ∈ t.artifacts, row.artifactId = id → seq < row.publicationSeq
  | .evidence id => ∀ row ∈ t.evidenceSets, row.evidenceId = id → seq < row.publicationSeq
  | .record id => ∀ row ∈ t.memberRecords, row.recordId = id → seq < row.publicationSeq

/-- The content is above a sequence that has passed. -/
structure Tables.SeqAbove (t : Tables) (seq : Nat) (content : Content) : Prop where
  current : seq < t.publicationSeq
  row : t.RowAbove seq content

variable {content : Content}

lemma Tables.RowAbove.mono {seq : Nat} (h : t.RowAbove seq content) (hle : seq' ≤ seq) :
    t.RowAbove seq' content := by
  cases content <;> exact fun row hrow hid => hle.trans_lt (h row hrow hid)

variable {seq : Nat}

/-- A key has one row, so what holds of it holds of every row of the key. -/
lemma above_of_key {ρ κ : Type} [DecidableEq κ] [Keyed ρ κ] {table : Table ρ} {row : ρ}
    {P : ρ → Prop} (hrow : row ∈ table) (h : P row) :
    ∀ other ∈ table, Keyed.key other = Keyed.key row → P other := by
  intro other hother hid
  rwa [Table.eq_of_key hother hrow hid]

lemma Tables.ArtifactPublished.seqAbove {id : Digest} (h : t.ArtifactPublished seq id) :
    t.SeqAbove seq (.artifact id) := by
  obtain ⟨_, hrow, rfl, -, hseq, hcur⟩ := h
  exact ⟨hseq.trans_le hcur, above_of_key hrow hseq⟩

lemma Tables.EvidencePublished.seqAbove {id : Digest} (h : t.EvidencePublished seq id) :
    t.SeqAbove seq (.evidence id) := by
  obtain ⟨_, hrow, rfl, -, hseq, hcur⟩ := h
  exact ⟨hseq.trans_le hcur, above_of_key hrow hseq⟩

lemma Tables.RecordPublished.seqAbove {id : Digest} (h : t.RecordPublished seq id) :
    t.SeqAbove seq (.record id) := by
  obtain ⟨_, hrow, rfl, -, hseq, hcur⟩ := h
  exact ⟨hseq.trans_le hcur, above_of_key hrow hseq⟩

variable (digests) in
/-- The contents that an operation inserts or publishes again when it commits. -/
def Op.published : Op → List Content
  | publishArtifact artifact => [.artifact (artifact.key.key.digest digests)]
  | publishFacts key _ => [.artifact (key.key.digest digests)]
  | publishFactsWithEvidence key facts evidence =>
    match prepareFactsWithEvidence digests key facts evidence with
    | .ok (_, prepared, concluded) => [.artifact prepared.artifactId, .evidence concluded.id]
    | .error _ => []
  | publishEvidence target evidence =>
    match prepareTargetEvidence digests target evidence with
    | .ok prepared => [.evidence prepared.id]
    | .error _ => []
  | publishMemberRecord record =>
    match prepareRecord digests record with
    | .ok encoded => [.record encoded.id]
    | .error _ => []
  | _ => []

lemma renewIfDue_seq (txn : Txn) (lease : ProcessLease) (t : Tables) :
    (renewIfDue txn lease t).1.publicationSeq = t.publicationSeq := by
  unfold renewIfDue
  split <;> rfl

variable {lease lease' : ProcessLease}

lemma Op.Writes.published {statements : Statements} {value : statements.α}
    (hwrites : op.Writes digests txn lease statements) (h : statements.run t = .ok (t', value))
    (hcont : content ∈ op.published digests) : t'.SeqAbove t.publicationSeq content := by
  cases hwrites with
  | publishArtifact hprep | publishFacts _ hprep =>
    obtain rfl := mem_singleton.mp hcont
    obtain ⟨hid, hexp⟩ := prepareArtifact_ok hprep
    exact hid ▸ (insertPrepared_edits hexp h).2.seqAbove
  | publishFactsWithEvidence hprep =>
    simp only [Op.published, hprep] at hcont
    obtain ⟨hexp, hconcl, hconc⟩ := prepareFactsWithEvidence_ok hprep
    obtain ⟨-, hart, hev⟩ := insertWithEvidence_edits hexp hconcl hconc h
    rcases mem_pair.mp hcont with rfl | rfl
    · exact hart.seqAbove
    · exact hev.seqAbove
  | publishEvidence hprep =>
    simp only [Op.published, hprep] at hcont
    obtain rfl := mem_singleton.mp hcont
    obtain ⟨hnone, hexp⟩ := prepareTargetEvidence_ok hprep
    exact (insertTargetEvidence_edits hnone hexp h).2.seqAbove
  | publishMemberRecord henc =>
    simp only [Op.published, henc] at hcont
    obtain rfl := mem_singleton.mp hcont
    exact (putRecord_edits henc h).2.seqAbove
  | _ => cases hcont

/-- A publication that commits leaves its contents above the sequence it began
with. -/
lemma Op.run_published {reply : Reply} (h : op.run digests txn lease t = (lease', .ok (t', reply)))
    (hcont : content ∈ op.published digests) : t'.SeqAbove t.publicationSeq content := by
  have hwrite : op.isWrite = true := by
    cases op <;> first | rfl | cases hcont
  obtain ⟨_, _, hwrites, h⟩ := run_write_ok hwrite h
  have hput := hwrites.published (write_ok h).2 hcont
  rwa [renewIfDue_seq] at hput

/-! ## Sequences -/

lemma ContentEdit.rowAbove (h : ContentEdit t t') (habove : t.SeqAbove seq content) :
    t'.RowAbove seq content := by
  have hrow := habove.row
  have hcur := habove.current
  -- contents of another table than the edited one have the same rows
  cases h with
  | insertArtifact hins hseq | insertEvidence hins _ hseq | insertRecord hins _ _ _ _ _ hseq =>
    cases content <;> first | exact hins.forall_mem hrow fun _ => hseq ▸ hcur | exact hrow
  | touchArtifacts hupd | touchEvidence hupd | touchRecords hupd =>
    cases content <;> first | exact hupd.forall_mem hrow fun _ _ _ => hcur | exact hrow
  | retireArtifacts hupd | retireEvidence hupd | retireRecords hupd =>
    cases content <;> first | exact hupd.forall_mem hrow fun _ hold => hold | exact hrow
  | deleteArtifacts hdel | deleteEvidence hdel | deleteRecords hdel =>
    cases content <;> first | exact fun row hmem => hrow row (hdel.of_new row hmem) | exact hrow
  | _ => cases content <;> exact hrow

lemma Edit.rowAbove (h : Edit t t') (habove : t.SeqAbove seq content) :
    t'.RowAbove seq content := by
  cases h with
  | content h => exact h.rowAbove habove
  | snapshot h => cases h <;> cases content <;> exact habove.row
  | leases => cases content <;> exact habove.row

lemma Edits.seqAbove (h : Edits t t') (habove : t.SeqAbove seq content) :
    t'.SeqAbove seq content := by
  induction h with
  | refl => exact habove
  | tail _ hedit ih => exact ⟨ih.current.trans_le (Edits.seq_le (.single hedit)), hedit.rowAbove ih⟩

variable {world world' : World} {step : Step}

section

variable (h : world.StepsTo digests step world')

include h

/-- A step commits edits or retires one record by hand. -/
lemma World.StepsTo.edits_or_retired :
    Edits world.tables world'.tables ∨ ∃ p memberRecords,
      Table.Updated world.tables.memberRecords memberRecords p RecordRow.retire ∧
        world'.tables = { world.tables with memberRecords } := by
  cases hdirect : step.isDirectRetirement with
  | false => exact .inl (h.edits hdirect)
  | true =>
    cases h with
    | idle | failed => exact .inl .refl
    | opened haction | dropped haction => simp [Step.isDirectRetirement, haction] at hdirect
    | @committed op _ _ tables _ haction _ hrun =>
      cases op with
      | retireMemberRecord =>
        cases Op.run_commits digests rfl hrun with
        | unchanged => exact .inl .refl
        | retireMemberRecord => exact .inr ⟨_, _, Table.updated_update .., rfl⟩
      | _ => simp [Step.isDirectRetirement, haction, Op.isDirectRetirement] at hdirect

lemma World.StepsTo.seq_le : world.tables.publicationSeq ≤ world'.tables.publicationSeq := by
  rcases h.edits_or_retired with hedits | ⟨p, _, -, htables⟩
  · exact hedits.seq_le
  · rw [htables]

lemma World.StepsTo.seqAbove
    (habove : world.tables.SeqAbove seq content) : world'.tables.SeqAbove seq content := by
  rcases h.edits_or_retired with hedits | ⟨p, _, hupd, htables⟩
  · exact hedits.seqAbove habove
  · -- retiring a record by hand is not an edit: it checks no reference
    rw [htables]
    refine ⟨habove.current, ?_⟩
    cases content with
    | record => exact hupd.forall_mem habove.row fun _ hold => hold
    | _ => exact habove.row

end

/-- A lease's floor is at most the sequence of its last renewal, and that one is not
ahead of `seq`. -/
def LeaseRow.IsBehind (seq : Nat) (row : LeaseRow) : Prop :=
  row.floorSeq ≤ row.renewalSeq ∧ row.renewalSeq ≤ seq

lemma LeaseRow.IsBehind.mono (h : row.IsBehind seq) (hle : seq ≤ seq') : row.IsBehind seq' :=
  ⟨h.1, h.2.trans hle⟩

lemma LeaseRow.isBehind_new (id : Nonce) (now seq : Nat) : (LeaseRow.new id now seq).IsBehind seq :=
  ⟨le_rfl, le_rfl⟩

lemma LeaseRow.IsBehind.renew (h : row.IsBehind seq) (now : Nat) :
    (row.renew now seq).IsBehind seq :=
  ⟨h.2, le_rfl⟩

lemma isBehind_renewRows (h : ∀ row ∈ t.processLeases, row.IsBehind t.publicationSeq)
    (id : Nonce) (now : Nat) : ∀ row ∈ renewRows t id now, row.IsBehind t.publicationSeq := by
  unfold renewRows
  split
  · exact (Table.updated_update _ _ _ _).forall_mem h fun row hrow => hrow.renew now
  · intro row hrow
    rcases Table.mem_insertOrIgnore hrow with hold | rfl
    · exact h row hold
    · exact LeaseRow.isBehind_new id now t.publicationSeq

lemma LeaseChange.isBehind {cleanup : Bool} {processLeases : Table LeaseRow}
    (h : LeaseChange t lease now cleanup processLeases lease')
    (hrows : ∀ row ∈ t.processLeases, row.IsBehind t.publicationSeq) :
    ∀ row ∈ processLeases, row.IsBehind t.publicationSeq := by
  cases h with
  | same => exact hrows
  | deleted _ hsub => exact fun row hrow => hrows row (hsub row hrow)
  | ensured seconds =>
    intro row hrow
    rcases Table.mem_insertOrIgnore hrow with hold | rfl
    · exact hrows row hold
    · exact LeaseRow.isBehind_new lease.id seconds t.publicationSeq
  | renewed => exact isBehind_renewRows hrows lease.id now

/-- Every lease row is behind the current sequence. -/
def World.LeasesBehind (world : World) : Prop :=
  ∀ row ∈ world.tables.processLeases, row.IsBehind world.tables.publicationSeq

lemma World.StepsTo.leasesBehind (h : world.StepsTo digests step world')
    (hbehind : world.LeasesBehind) :
    world'.LeasesBehind := by
  have hseq := h.seq_le
  suffices hrows : ∀ row ∈ world'.tables.processLeases,
      row.IsBehind world.tables.publicationSeq from fun row hrow => (hrows row hrow).mono hseq
  cases h with
  | idle | failed => exact hbehind
  | opened _ _ hopen =>
    obtain ⟨-, rfl⟩ := openLease_ok hopen
    exact isBehind_renewRows hbehind _ _
  | dropped _ _ htables =>
    rcases htables with rfl | hrel
    · exact hbehind
    · exact fun row hrow => hbehind row ((release_ok hrel).mp hrow).1
  | committed _ _ hrun => exact (Op.run_leases hrun).isBehind hbehind

variable (digests) in
lemma World.run_leasesBehind (seq : Nat) (steps : List Step) :
    ((initial seq).run digests steps).LeasesBehind := by
  refine run_invariant digests (Q := fun _ => True) ?_ (fun _ _ => trivial) ?_
  · intro world step hbehind _
    exact (world.stepsTo_step digests step).leasesBehind hbehind
  · intro row hrow
    exact absurd hrow (Table.not_mem_empty row)

/-! ## Shelter -/

/-- The lease has a row that is not expired at `now`. -/
def World.LeaseIsLive (world : World) (id : Nonce) (now : Nat) : Prop :=
  ∃ row ∈ world.tables.processLeases, row.leaseId = id ∧ liveSince now ≤ row.renewedUnixSeconds

instance (world : World) (id : Nonce) (now : Nat) : Decidable (world.LeaseIsLive id now) :=
  inferInstanceAs (Decidable (∃ row ∈ world.tables.processLeases, row.leaseId = id ∧ _))

/-- The lease keeps what was published after `seq`: its floor has not passed `seq`,
and the next renewal does not bring it there, or the process has renewed at
`since` or later. -/
def World.Shelters (world : World) (id : Nonce) (seq since : Nat) : Prop :=
  ∃ row ∈ world.tables.processLeases, row.leaseId = id ∧ row.floorSeq ≤ seq ∧
    (row.renewalSeq ≤ seq ∨
      ∀ p lease, world.leases p = some lease → lease.id = id → since ≤ lease.renewed)

variable {id : Nonce} {since : Nat}

lemma World.StepsTo.renewed_ge (h : world.StepsTo digests step world')
    (hfresh : ∀ id, step.opened = some id → ¬ id ∈ opened) (hlisted : id ∈ opened)
    (hnow : since ≤ step.txn.now)
    (hrenewed : ∀ p lease, world.leases p = some lease → lease.id = id → since ≤ lease.renewed) :
    ∀ p lease, world'.leases p = some lease → lease.id = id → since ≤ lease.renewed := by
  intro p lease hlease hid
  rcases h.leases hlease with ⟨_, hold, hrem⟩ | ⟨-, hopened⟩
  · rcases hrem with rfl | ⟨-, rfl⟩
    · exact hrenewed p lease hold hid
    · exact hnow
  · exact absurd (hid ▸ hlisted) (hfresh _ hopened)

/-- Within a minute of `since` a lease whose row is not deleted goes on to shelter. -/
lemma World.StepsTo.shelters (h : world.StepsTo digests step world')
    (hdist : world.DistinctLeases opened) (hfresh : ∀ id, step.opened = some id → ¬ id ∈ opened)
    (hlisted : id ∈ opened) (hsince : since ≤ step.txn.now)
    (hgrace : step.txn.now < since + leaseRenewal)
    (hrow : ∃ row ∈ world'.tables.processLeases, row.leaseId = id)
    (hshelters : world.Shelters id seq since) : world'.Shelters id seq since := by
  obtain ⟨row, hmem, rfl, hfloor, hphase⟩ := hshelters
  rcases h.row hfresh hmem hlisted with hkept | hgone | hrenewed
  · exact ⟨row, hkept, rfl, hfloor, hphase.imp_right (h.renewed_ge hfresh hlisted hsince)⟩
  · obtain ⟨other, hother, hid⟩ := hrow
    exact absurd hid (hgone other hother)
  · obtain ⟨lease, hlease, hid, hdue, hnew, hlease'⟩ := hrenewed
    rcases hphase with hrenewal | htimer
    · -- the first renewal since: the floor takes the sequence of the one before
      refine ⟨_, hnew, rfl, hrenewal, .inr ?_⟩
      intro p other hother hotherId
      by_cases hp : p = step.process
      · rw [hp, hlease'] at hother
        obtain rfl := Option.some.inj hother
        exact hsince
      · rw [h.leases_of_ne hp] at hother
        exact absurd (hdist.process_eq hother hlease (hotherId.trans hid.symm)) hp
    · -- the second one comes a minute later
      have hbefore := htimer _ lease hlease hid
      have hapart := of_decide_eq_true hdue
      omega

/-- Before a publication, the publisher's lease shelters what it will publish. -/
lemma World.LeasesBehind.shelters (hbehind : world.LeasesBehind)
    (hlive : world.LeaseIsLive id now) : world.Shelters id world.tables.publicationSeq since := by
  obtain ⟨row, hrow, hid, -⟩ := hlive
  obtain ⟨hfloor, hrenewal⟩ := hbehind row hrow
  exact ⟨row, hrow, hid, hfloor.trans hrenewal, .inl hrenewal⟩

/-! ## Retirement -/

/-- The horizon is not ahead of the floor of a live lease. -/
lemma horizon_le (hrow : row ∈ t.processLeases)
    (hlive : liveSince now ≤ row.renewedUnixSeconds) : horizon t now ≤ row.floorSeq := by
  have hmem : row.floorSeq ∈ (t.processLeases.rows.filter fun row =>
      liveSince now ≤ row.renewedUnixSeconds).map LeaseRow.floorSeq := by
    apply mem_map_of_mem
    exact mem_filter.mpr ⟨hrow, decide_eq_true hlive⟩
  exact min?_getD_le_of_mem hmem

lemma cutoff_le (horizon current recencyWindow : Nat) (pressured : Bool) :
    cutoff horizon current recencyWindow pressured ≤ horizon := by
  unfold cutoff
  split
  · exact le_rfl
  · exact Nat.min_le_left ..

/-- A retirement step takes nothing above the horizon. -/
lemma RetireStep.statement_isLive (step : RetireStep) (limits : MaintenanceLimits) (scan : Scan)
    (pressured : Bool) (habove : t.RowAbove (horizon t now) content) (hlive : t.IsLive content) :
    (step.statement limits scan pressured now t).1.IsLive content := by
  have hcutoff := cutoff_le (horizon t now) t.publicationSeq limits.recencyWindow pressured
  cases step <;> cases content <;> try exact hlive
  -- left are the records, the evidence and the artifacts, each with the step that retires it:
  -- a row that is taken is at or below the cutoff
  all_goals
    refine ((Table.updated_updateSome _ scan _ limits.batchRows _ (by exact fun _ => rfl)).exists_or
      ?_ hlive).elim (fun h => h) False.elim
    intro row hrow htaken hid
    refine Nat.not_lt.mpr (Nat.le_trans ?_ hcutoff) (habove row hrow hid.1)
  · exact (of_isUnlistedRecord htaken).1
  · exact (of_isUnreferencedEvidence htaken).1
  · exact (of_isUnreferencedArtifact htaken).1

/-- A retirement step leaves what a live lease shelters. -/
lemma World.StepsTo.retire_isLive {which : RetireStep} {limits : MaintenanceLimits} {scan : Scan}
    (h : world.StepsTo digests step world')
    (haction : step.action = .run (.retireStep which limits scan))
    (hlease : world.LeaseIsLive id step.txn.now) (hshelters : world.Shelters id seq since)
    (habove : world.tables.SeqAbove seq content) (hlive : world.tables.IsLive content) :
    world'.tables.IsLive content := by
  cases h with
  | idle | failed => exact hlive
  | opened hother | dropped hother => cases haction.symm.trans hother
  | committed hrunAction _ hrun =>
    cases haction.symm.trans hrunAction
    obtain ⟨row, hrow, hid, hfloor, -⟩ := hshelters
    obtain ⟨_, hother, hotherId, hunexpired⟩ := hlease
    obtain rfl := Table.eq_of_key hother hrow (hotherId.trans hid.symm)
    have hhorizon := (horizon_le hother hunexpired).trans hfloor
    cases Op.run_commits digests rfl hrun with
    | unchanged => exact hlive
    | @retireStep _ _ _ pressured =>
      exact which.statement_isLive limits scan pressured (habove.row.mono hhorizon) hlive

/-! ## Runs -/

/-- The clock as the steps of a run read it. -/
def clockReadings (steps : List Step) : List Nat := steps.map fun step => step.txn.now

/-- A lease whose row stays live goes on to shelter for a minute of steps. -/
lemma World.run_shelters (start : Nat) {earlier steps : List Step} {last : Step}
    (hfresh : (openedLeases (earlier ++ steps)).Nodup) (hlisted : id ∈ openedLeases earlier)
    (hclock : ∀ step ∈ steps, since ≤ step.txn.now ∧ step.txn.now < since + leaseRenewal)
    (hlive : ((initial start).run digests earlier).Along digests
      (fun world step => world.LeaseIsLive id step.txn.now) (steps ++ [last]))
    (hshelters : ((initial start).run digests earlier).Shelters id seq since) :
    ((initial start).run digests (earlier ++ steps)).Shelters id seq since := by
  induction steps using reverseRecOn generalizing last with
  | nil =>
    rw [append_nil]
    exact hshelters
  | append_singleton steps step ih =>
    rw [← append_assoc] at hfresh ⊢
    obtain ⟨hbefore, hlast⟩ := (along_append_singleton digests).mp hlive
    have hprefix := openedLeases_nodup hfresh
    have hmid := ih hprefix (fun other hother => hclock other (mem_append_left _ hother)) hbefore
    obtain ⟨hsince, hgrace⟩ := hclock step (mem_append_right _ (mem_singleton_self step))
    have hlistedMid : id ∈ openedLeases (earlier ++ steps) := by
      unfold openedLeases
      rw [filterMap_append]
      exact mem_append_left _ hlisted
    obtain ⟨row, hrow, hid, -⟩ := hlast
    rw [← run_append, ← append_assoc] at hrow
    rw [run_append_singleton] at hrow ⊢
    exact (stepsTo_step digests _ step).shelters
      (run_distinctLeases digests start hprefix) (fun _ => not_mem_openedLeases hfresh)
      hlistedMid hsince hgrace ⟨row, hrow, hid⟩ hmid

lemma World.run_seqAbove (world : World) (steps : List Step)
    (h : world.tables.SeqAbove seq content) :
    (world.run digests steps).tables.SeqAbove seq content := by
  refine run_invariant digests (P := fun world => world.tables.SeqAbove seq content)
    (Q := fun _ => True) ?_ (fun _ _ => trivial) h
  intro world step habove _
  exact (world.stepsTo_step digests step).seqAbove habove

lemma exists_committed {result : ProcessLease × Committed} (h : result.2.isOk = true) :
    ∃ lease tables reply, result = (lease, .ok (tables, reply)) := by
  obtain ⟨lease, outcome⟩ := result
  cases outcome with
  | error => cases h
  | ok committed => exact ⟨lease, committed.1, committed.2, rfl⟩

/-- For a minute after a publication, no retirement step takes what was published,
as long as the publisher's lease row is there and not expired. -/
theorem retireStep_spares_published (start : Nat) (earlier : List Step) (publish : Step)
    (between : List Step) (retire : Step) {op : Op} {lease : ProcessLease} {content : Content}
    {which : RetireStep} {limits : MaintenanceLimits} {scan : Scan}
    (hfresh : (openedLeases (earlier ++ publish :: between)).Nodup)
    (hclock : (clockReadings (publish :: between ++ [retire])).Pairwise (· ≤ ·))
    (hpublish : publish.action = .run op)
    (hlease : ((initial start).run digests earlier).leases publish.process = some lease)
    (hcommitted : (op.run digests publish.txn lease
      ((initial start).run digests earlier).tables).2.isOk = true)
    (hcontent : content ∈ op.published digests)
    (hlive : ((initial start).run digests earlier).Along digests
      (fun world step => world.LeaseIsLive lease.id step.txn.now) (publish :: between ++ [retire]))
    (hretire : retire.action = .run (.retireStep which limits scan))
    (hgrace : retire.txn.now < publish.txn.now + leaseRenewal)
    (hbefore : ((initial start).run digests (earlier ++ publish :: between)).tables.IsLive
      content) :
    ((initial start).run digests
      (earlier ++ publish :: between ++ [retire])).tables.IsLive content := by
  obtain ⟨_, published, _, hrun⟩ := exists_committed hcommitted
  have hprefix : (openedLeases earlier).Nodup := by
    unfold openedLeases at hfresh
    rw [filterMap_append] at hfresh
    exact (nodup_append.mp hfresh).1
  have hlisted := (run_distinctLeases digests start hprefix).listed hlease
  -- every step reads the clock between the publication and the retirement
  have hminute : ∀ step ∈ publish :: between, publish.txn.now ≤ step.txn.now ∧
      step.txn.now < publish.txn.now + leaseRenewal := by
    intro step hstep
    obtain ⟨hordered, -, hlast⟩ := pairwise_append.mp (pairwise_map.mp hclock)
    refine ⟨?_, (hlast step hstep retire (mem_singleton_self retire)).trans_lt hgrace⟩
    rcases mem_cons.mp hstep with rfl | hbetween
    · exact le_rfl
    · exact (pairwise_cons.mp hordered).1 step hbetween
  have hshelters := run_shelters start hfresh hlisted hminute hlive
    ((run_leasesBehind digests start earlier).shelters hlive.1)
  have habove : ((initial start).run digests (earlier ++ publish :: between)).tables.SeqAbove
      ((initial start).run digests earlier).tables.publicationSeq content := by
    rw [run_append]
    apply run_seqAbove (step _ _ _) between
    rw [step_committed digests hpublish hlease hrun]
    exact Op.run_published hrun hcontent
  have hlast := ((along_append_singleton digests).mp hlive).2
  rw [← run_append] at hlast
  rw [run_append_singleton]
  exact (stepsTo_step digests _ retire).retire_isLive hretire hlast hshelters habove hbefore

/-- A process publishes an artifact that nothing names just before its lease is due. -/
def orphanPublish : Step :=
  { process := 0, action := .run (.publishArtifact unitArtifact), txn := .calm 1059 }

/-- The process renews its lease; another one opens, with a floor past the artifact. -/
def orphanRenewal : List Step := [
  { process := 0, action := .run (.publishKey projectContext), txn := .calm 1060 },
  { process := 1, action := .openStore (.ofByte 8), txn := .calm 1100 }]

/-- The other process collects, short of space. -/
def orphanCollect : Step :=
  { process := 1, action := .run (.retireStep .artifacts .default .inserted),
    txn := { Txn.calm 1118 with pressure := .lowDiskSpace } }

def orphanOpening : List Step :=
  [{ process := 0, action := .openStore (.ofByte 9), txn := .calm 1000 }]

theorem retireStep_spares_published_orphan :
    ((initial 0).run lengthDigests
      (orphanOpening ++ orphanPublish :: orphanRenewal ++ [orphanCollect])).tables.IsLive
        (.artifact (unitKey.key.digest lengthDigests)) := by
  have hlease : ((initial 0).run lengthDigests orphanOpening).leases 0 =
      some { id := .ofByte 9, renewed := 1000 } := by
    decide +kernel
  exact retireStep_spares_published 0 orphanOpening orphanPublish orphanRenewal orphanCollect
    (by decide) (by decide) rfl hlease (by decide +kernel) (mem_singleton_self _)
    (by decide +kernel) rfl (by decide) (by decide +kernel)

end Lint4d.Store
