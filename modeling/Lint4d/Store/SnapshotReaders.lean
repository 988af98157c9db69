import Lint4d.Store.Sealing

/-!
# Reading a sealed snapshot

A reader takes the members of a snapshot in batches of bounded rows and bytes.
While the snapshot stays sealed its members do not change, so each batch takes
at least one member, and the digest recomputed at the end is the sealed one.
-/

namespace Lint4d.Store

open Lint4d.Lib Lint4d.Cache Lint4d.Facts List

variable {digests : Digests} {t : Tables} {id : Nonce} {action : Action}
  {view view' : SnapshotView} {member : MemberRow} {txn : ReadTxn}

/-! ## Batches -/

/-- The lifecycle of a member's record; `none` when the record is gone. -/
def Tables.lifecycleOf (t : Tables) (member : MemberRow) : Option Lifecycle :=
  (t.memberRecords.find? member.recordId).map fun row => row.stored.lifecycle

/-- A member as the reader's query returns it. -/
def Tables.memberRow (t : Tables) (member : MemberRow) : Nat × MemberRow × Option Lifecycle :=
  (member.ordinal, member, t.lifecycleOf member)

/-- A batch has taken the first `taken` of `members` from where it was. -/
structure RowSource.Progress.Takes (start progress : RowSource.Progress Hasher SnapshotMember)
    (members : List MemberRow) (taken : Nat) : Prop where
  le : taken ≤ members.length
  nextOrdinal : progress.nextOrdinal = start.nextOrdinal + taken
  source : progress.source = hashAll start.source (members.take taken)
  items : progress.items.length = start.items.length + taken

/-- The batch with one more member. -/
def RowSource.Progress.add (progress : RowSource.Progress Hasher SnapshotMember)
    (member : MemberRow) : RowSource.Progress Hasher SnapshotMember where
  source := SnapshotHasher.update progress.source member.recordId member.sourceKey
  nextOrdinal := progress.nextOrdinal + 1
  readBytes := progress.readBytes + (32 + member.sourceKey.length)
  bytes := progress.bytes + (32 + member.sourceKey.length)
  items := progress.items ++ [{ ordinal := member.ordinal, recordId := member.recordId,
                                sourceKey := member.sourceKey }]

variable {members : List MemberRow}

lemma RowSource.Progress.Takes.cons {start progress : RowSource.Progress Hasher SnapshotMember}
    {taken : Nat} (h : (start.add member).Takes progress members taken) :
    start.Takes progress (member :: members) (taken + 1) where
  le := Nat.succ_le_succ h.le
  nextOrdinal := by
    rw [h.nextOrdinal]
    simp only [add]
    omega
  source := h.source
  items := by
    rw [h.items]
    simp only [add, length_append, length_singleton]
    omega

variable {count : Nat}

/-- One turn of the loop, for a member that continues the ordinals and fits. -/
lemma takeRows_cons {rows : List (Nat × MemberRow × Option Lifecycle)}
    {start : RowSource.Progress Hasher SnapshotMember} (hord : member.ordinal = start.nextOrdinal)
    (hcount : start.nextOrdinal < count) (hfits : 32 + member.sourceKey.length ≤ maxRowBatchBytes) :
    (memberSource digests id).takeRows txn.undisturbed count start (t.memberRow member :: rows) =
      if maxRowBatchBytes < start.bytes + (32 + member.sourceKey.length) then .ok start
      else match t.lifecycleOf member with
        | none => .error (.ok .vanished)
        | some .retired => .error (.ok .retired)
        | some .live =>
          (memberSource digests id).takeRows txn.undisturbed count (start.add member) rows := by
  have hsize : (memberSource digests id).size (member, t.lifecycleOf member) =
      32 + member.sourceKey.length := by
    change member.recordId.bytes.length + member.sourceKey.length = _
    rw [member.recordId.size]
  rw [Tables.memberRow, RowSource.takeRows]
  rw [if_neg (not_not.mpr hord), if_neg (by omega), if_neg (by omega), hsize]
  cases hlife : t.lifecycleOf member with
  | none => rfl
  | some lifecycle => cases lifecycle <;> rfl

/-- The loop over consecutive members that fit: it stops at a record that is not
live, or takes some of them, and the first one if nothing was taken before. -/
lemma takeRows_members (start : RowSource.Progress Hasher SnapshotMember)
    (hords : members.map MemberRow.ordinal = range' start.nextOrdinal members.length)
    (hbounded : ∀ member ∈ members, 32 + member.sourceKey.length ≤ maxRowBatchBytes)
    (hcount : start.nextOrdinal + members.length ≤ count) :
    (∃ progress taken, (memberSource digests id).takeRows txn.undisturbed count start
          (members.map t.memberRow) = .ok progress ∧ start.Takes progress members taken ∧
        (start.bytes = 0 → members ≠ [] → 0 < taken)) ∨
      ∃ miss, (memberSource digests id).takeRows txn.undisturbed count start
          (members.map t.memberRow) = .error miss ∧ ∃ member ∈ members, t.lifecycleOf member ≠ some .live := by
  -- on the rows offered; a row of a retired record is a miss
  induction members generalizing start with
  | nil =>
    refine .inl ⟨start, 0, rfl, ⟨le_rfl, rfl, rfl, rfl⟩, ?_⟩
    intro _ hne
    exact absurd rfl hne
  | cons member members ih =>
    obtain ⟨hord, hrest⟩ := cons.inj hords
    have hfits := hbounded member (mem_cons_self ..)
    rw [length_cons] at hcount
    rw [map_cons, takeRows_cons hord (by omega) (by omega)]
    by_cases hroom : maxRowBatchBytes < start.bytes + (32 + member.sourceKey.length)
    · -- the byte allowance is spent, which cannot be at the start of a batch
      rw [if_pos hroom]
      refine .inl ⟨start, 0, rfl, ⟨Nat.zero_le _, rfl, rfl, rfl⟩, ?_⟩
      intro hzero
      omega
    · rw [if_neg hroom]
      cases hlife : t.lifecycleOf member with
      | none => exact .inr ⟨.ok .vanished, rfl, member, mem_cons_self .., by simp [hlife]⟩
      | some lifecycle =>
        cases lifecycle with
        | retired => exact .inr ⟨.ok .retired, rfl, member, mem_cons_self .., by simp [hlife]⟩
        | live =>
          rcases ih (start.add member) hrest
            (fun other hother => hbounded other (mem_cons_of_mem member hother))
            (by simp only [RowSource.Progress.add]; omega) with
            ⟨progress, taken, hrun, htakes, -⟩ | ⟨miss, hrun, other, hother, hlost⟩
          · refine .inl ⟨progress, taken + 1, hrun, htakes.cons, ?_⟩
            intro _ _
            exact Nat.succ_pos taken
          · exact .inr ⟨miss, hrun, other, mem_cons_of_mem member hother, hlost⟩

/-- The next members of a snapshot whose ordinals have no gap. -/
lemma batch_ordinals (h : members.map MemberRow.ordinal = range count) (start limit : Nat) :
    ((members.drop start).take limit).map MemberRow.ordinal =
      range' start ((members.drop start).take limit).length := by
  have hlen : members.length = count := by
    simpa using congrArg length h
  rw [map_take, map_drop, h, length_take, length_drop, hlen]
  apply ext_getElem
  · simp
  · intro i hi hi'
    simp

/-! ## Sound readers -/

/-- The reader has hashed the first members of the snapshot it is of. -/
structure SnapshotReader.Sound (view : SnapshotView) (reader : SnapshotReader) : Prop where
  expected : reader.reader.expected = { count := reader.header.memberCount, contentBytes := none,
                                        witness := reader.header.sealedDigest }
  follows : ∀ row, view.row = some row → row.state = .sealed → reader.reader.state = .reading →
    reader.reader.nextOrdinal ≤ row.memberCount ∧
      reader.reader.source = hashAll (SnapshotHasher.new reader.header.context
        reader.header.discovery reader.header.coverage (UInt64.ofNat reader.header.memberCount))
        (view.members.take reader.reader.nextOrdinal)

lemma SnapshotReader.sound_new (view : SnapshotView) (header : SnapshotHeader) :
    (SnapshotReader.new header).Sound view := by
  refine ⟨rfl, ?_⟩
  intro row _ _ _
  exact ⟨Nat.zero_le _, rfl⟩

lemma SnapshotView.Moves.reader (h : Moves digests action id view view')
    (hold : ¬ action.Begins id) {reader : SnapshotReader} (hheader : reader.header.Sound view)
    (hrdr : reader.Sound view) : reader.Sound view' := by
  refine ⟨hrdr.expected, ?_⟩
  intro row hrow hstate
  rcases h.kept_or_retired hold fun row hrow => (hheader row hrow).1 with rfl | hret
  · exact hrdr.follows row hrow hstate
  · cases (hret row hrow).symm.trans hstate

variable {row : SnapshotRow}

/-- The rows a batch reads of a sealed snapshot. -/
lemma memberSource_rows (hview : (t.view id).Sound digests) (hrow : (t.view id).row = some row)
    (hstate : row.state = .sealed) (start : Nat) :
    (memberSource digests id).rows t start = ((t.view id).members.drop start).map t.memberRow := by
  have hactive : row.isActive = true := SnapshotRow.isActive_iff.mpr (by simp [hstate])
  change (membersFrom t id start).map t.memberRow = _
  rw [membersFrom_eq_drop (hview.complete row hrow hactive).1 start]
  rfl

/-- The loop over a batch of a sealed snapshot. -/
lemma takeRows_sealed (hview : (t.view id).Sound digests) (hrow : (t.view id).row = some row)
    (hstate : row.state = .sealed) (start : RowSource.Progress Hasher SnapshotMember)
    (hle : start.nextOrdinal ≤ row.memberCount) :
    let batch := ((t.view id).members.drop start.nextOrdinal).take maxRowBatchRows
    (∃ progress taken, (memberSource digests id).takeRows txn.undisturbed row.memberCount start
        (((memberSource digests id).rows t start.nextOrdinal).take maxRowBatchRows) = .ok progress ∧
        start.Takes progress batch taken ∧
        (start.bytes = 0 → start.nextOrdinal < row.memberCount → 0 < taken)) ∨
      ∃ miss, (memberSource digests id).takeRows txn.undisturbed row.memberCount start
        (((memberSource digests id).rows t start.nextOrdinal).take maxRowBatchRows) =
          .error miss ∧ ∃ member ∈ (t.view id).members, t.lifecycleOf member ≠ some .live := by
  intro batch
  have hactive : row.isActive = true := SnapshotRow.isActive_iff.mpr (by simp [hstate])
  have hlen := hview.length_eq hrow hactive
  have hsub : ∀ member ∈ batch, member ∈ (t.view id).members := fun member hmember =>
    mem_of_mem_drop (mem_of_mem_take hmember)
  have hbatch : batch.length = min maxRowBatchRows (row.memberCount - start.nextOrdinal) := by
    rw [length_take, length_drop, hlen]
  have hcount : start.nextOrdinal + batch.length ≤ row.memberCount := by
    rw [hbatch]
    omega
  rw [memberSource_rows hview hrow hstate, ← map_take]
  rcases takeRows_members start (batch_ordinals (hview.complete row hrow hactive).1 _ _)
    (fun member hmember => hview.bounded member (hsub member hmember)) hcount with
    ⟨progress, taken, hrun, htakes, hsome⟩ | ⟨miss, hrun, member, hmember, hlost⟩
  · refine .inl ⟨progress, taken, hrun, htakes, ?_⟩
    intro hbytes hlt
    apply hsome hbytes
    intro hnil
    have hempty : batch.length = 0 := congrArg length hnil
    have hrows : 0 < maxRowBatchRows := by decide
    omega
  · exact .inr ⟨miss, hrun, member, hsub member hmember, hlost⟩

/-! ## One batch -/

lemma SnapshotReader.Sound.nextBatch {reader : SnapshotReader}
    (hrdr : reader.Sound (t.view reader.header.id))
    (hview : (t.view reader.header.id).Sound digests)
    (hheader : reader.header.Sound (t.view reader.header.id)) (txn : ReadTxn) :
    SnapshotReader.Sound (t.view reader.header.id) { reader with
      reader := ((memberSource digests reader.header.id).nextBatch txn.undisturbed
        reader.reader t).1 } := by
  have h := (memberSource digests reader.header.id).nextBatch_answers txn.undisturbed
    reader.reader t
  generalize (memberSource digests reader.header.id).nextBatch txn.undisturbed reader.reader t =
    next at h ⊢
  cases h with
  | bypassed | done | missed => exact hrdr
  | failed | verified =>
    refine ⟨hrdr.expected, ?_⟩
    intro row _ _ hreading
    cases hreading
  | @advanced progress hreading htaken =>
    refine ⟨hrdr.expected, ?_⟩
    intro row hrow hstate _
    obtain ⟨hle, hsrc⟩ := hrdr.follows row hrow hstate hreading
    have hcount : reader.reader.expected.count = row.memberCount := by
      rw [hrdr.expected]
      exact ((hheader row hrow).2 hstate).memberCount
    have hactive : row.isActive = true := SnapshotRow.isActive_iff.mpr (by simp [hstate])
    have hlen := hview.length_eq hrow hactive
    rw [hcount] at htaken
    rcases takeRows_sealed hview hrow hstate reader.reader.progress hle with
      ⟨_, taken, hrun, htakes, -⟩ | ⟨miss, hrun, -⟩
    · obtain rfl := Except.ok.inj (htaken.symm.trans hrun)
      obtain ⟨htakenLe, hnext, hhashed, -⟩ := htakes
      rw [length_take, length_drop, hlen] at htakenLe
      have hrows : min taken maxRowBatchRows = taken := by omega
      change progress.nextOrdinal ≤ row.memberCount ∧
        progress.source = hashAll _ ((t.view reader.header.id).members.take progress.nextOrdinal)
      rw [hnext, hhashed]
      simp only [ManifestReader.progress] at htakenLe ⊢
      refine ⟨by omega, ?_⟩
      rw [hsrc, ← hashAll_append, take_take, hrows, ← take_add]
    · cases htaken.symm.trans hrun

/-! ## Progress -/

/-- The snapshot is sealed, and the records of its members are live. -/
def Tables.Readable (t : Tables) (id : Nonce) : Prop :=
  (∃ row, (t.view id).row = some row ∧ row.state = .sealed) ∧
    ∀ member ∈ (t.view id).members, t.lifecycleOf member = some .live

instance (t : Tables) (id : Nonce) : Decidable (t.Readable id) :=
  inferInstanceAs (Decidable ((∃ row ∈ (t.view id).row, row.state = .sealed) ∧
    ∀ member ∈ (t.view id).members, t.lifecycleOf member = some .live))

/-- A read transaction that begins in a live scope. -/
def ReadTxn.admitted (txn : ReadTxn) : Bool := txn.begin.isOk && txn.live

lemma ReadTxn.admitted_iff :
    txn.admitted = true ↔ (do txn.begin; txn.ensureLive : Except Bypass Unit) = .ok () := by
  obtain ⟨begun, live⟩ := txn
  cases begun <;> cases live <;> simp [admitted, ensureLive, Except.isOk, Except.toBool, bind,
    Except.bind]

variable (digests) in
/-- The parent of a readable snapshot is eligible. -/
lemma ineligible_of_sealed (hrow : (t.view id).row = some row) (hstate : row.state = .sealed) :
    (memberSource digests id).ineligible t = none := by
  have hpar : (memberSource digests id).parent t = some true := by
    change (t.view id).row.map _ = _
    rw [hrow]
    simp [hstate]
  rw [RowSource.ineligible, hpar]

/-- The digest a reader that has every member recomputes. -/
lemma SnapshotHeader.Describes.digest {header : SnapshotHeader} (h : header.Describes row)
    (hview : view.Sound digests) (hrow : view.row = some row) (hstate : row.state = .sealed) :
    header.sealedDigest = snapshotDigest digests header.context header.discovery header.coverage
      header.memberCount view.members := by
  obtain ⟨coverage, hcov, hdig⟩ := hview.digest row hrow hstate
  have hsame : coverage = header.coverage := by
    have hencode := Option.some.inj (hcov.symm.trans h.coverage)
    have hdecode := (decodeSnapshotCoverage_eq_ok _ coverage).mpr rfl
    rw [(decodeSnapshotCoverage_eq_ok _ header.coverage).mpr hencode] at hdecode
    exact (Except.ok.inj hdecode).symm
  rw [h.sealedDigest, hsame, ← h.context, ← h.discovery, ← h.memberCount] at hdig
  exact Option.some.inj hdig

/-- A batch of a readable snapshot verifies it or takes some of its members. -/
lemma SnapshotReader.nextBatch_progress {reader : SnapshotReader}
    (hview : (t.view reader.header.id).Sound digests)
    (hheader : reader.header.Sound (t.view reader.header.id))
    (hrdr : reader.Sound (t.view reader.header.id)) (hadm : txn.admitted = true)
    (hreadable : t.Readable reader.header.id) (hreading : reader.reader.state = .reading) :
    (reader.nextBatch digests txn t).reader.state = .verified ∨
      ((reader.nextBatch digests txn t).reader.state = .reading ∧
        reader.reader.nextOrdinal < (reader.nextBatch digests txn t).reader.nextOrdinal ∧
        reader.reader.nextOrdinal < reader.header.memberCount) := by
  obtain ⟨⟨row, hrow, hstate⟩, hlive⟩ := hreadable
  obtain ⟨hle, hsrc⟩ := hrdr.follows row hrow hstate hreading
  have hdesc := (hheader row hrow).2 hstate
  have hcount : reader.reader.expected.count = row.memberCount := by
    rw [hrdr.expected]
    exact hdesc.memberCount
  have hactive : row.isActive = true := SnapshotRow.isActive_iff.mpr (by simp [hstate])
  have hlen := hview.length_eq hrow hactive
  have heligible := ineligible_of_sealed digests hrow hstate
  simp only [nextBatch, RowSource.nextBatch, ReadTxn.guarded_undisturbed,
    ReadTxn.toReadTxn_undisturbed, hreading, ReadTxn.admitted_iff.mp hadm]
  split
  · rename_i hlast
    refine .inl ?_
    have hrows :
        (memberSource digests reader.header.id).rows t reader.reader.expected.count = [] := by
      rw [memberSource_rows hview hrow hstate, hcount, drop_of_length_le (by omega)]
      rfl
    have hbytes : reader.reader.expected.contentBytes = none := by
      rw [hrdr.expected]
    have hwitness : (memberSource digests reader.header.id).finish reader.reader.source =
        reader.reader.expected.witness := by
      rw [hsrc, hlast, hcount, ← hlen, take_length, hrdr.expected]
      exact (hdesc.digest hview hrow hstate).symm
    simp [RowSource.verify, heligible, hrows, hbytes, hwitness]
  · refine .inr ?_
    have hlt : reader.reader.nextOrdinal < row.memberCount := by omega
    rcases takeRows_sealed hview hrow hstate reader.reader.progress hle with
      ⟨progress, taken, hrun, htakes, hsome⟩ | ⟨_, -, member, hmember, hlost⟩
    · have htaken := hsome rfl hlt
      have hitems : progress.items.length = taken := by
        rw [htakes.items]
        exact Nat.zero_add taken
      rw [← hcount, ManifestReader.progress_nextOrdinal] at hrun
      have hbatch : ((memberSource digests reader.header.id).readBatch txn.undisturbed
          reader.reader t).1 =
          reader.reader.advance progress := by
        simp only [RowSource.readBatch, heligible]
        rw [hrun]
        dsimp only
        rw [if_neg (by omega)]
      rw [hbatch]
      refine ⟨hreading, ?_, hdesc.memberCount ▸ hlt⟩
      change reader.reader.nextOrdinal < progress.nextOrdinal
      rw [htakes.nextOrdinal]
      exact Nat.lt_add_of_pos_right htaken
    · exact absurd (hlive member hmember) hlost

end Lint4d.Store
