import Lint4d.Store.Edits

/-!
# Transactions are sequences of edits

One lemma for each statement, transaction and operation of the store: what it
commits is reached by edits, and publications reach it by edits of the contents
alone.
-/

namespace Lint4d.Store

open List hiding any any_eq_false
open Lint4d.Lib Lint4d.Cache Lint4d.Facts Table ContentEdits

open Relation (ReflTransGen)

variable {digests : Digests} {t t' : Tables}
  {key : CanonicalKey} {concluded : PreparedEvidence} {purpose : EvidencePurpose}
  {terms : SnapshotSeal} {scans : Nat → Scan} {op : Op} {reply : Reply}
variable {ev : EvidenceWrite}

/-! ## Leases -/

variable {lease lease' : ProcessLease} {txn : Txn}

/-- The statements of a write run in the tables with the leases renewed. -/
lemma write_statements {α : Type} {stmts : Tables → Except Bypass (Tables × α)} {value : α}
    (h : write txn lease t stmts = (lease', .ok (t', value))) :
    ∃ processLeases, stmts { t with processLeases } = .ok (t', value) := by
  have hrun := (write_ok h).2
  unfold renewIfDue at hrun
  split at hrun
  · exact ⟨_, hrun⟩
  · exact ⟨t.processLeases, hrun⟩

/-! ## Publication -/

variable {published : Published}

lemma putManifest_ok (h : putManifest digests t key = .ok (t', published)) :
    ∃ keyManifests, t' = { t with keyManifests } := by
  unfold putManifest at h
  split at h
  · split at h
    · cases h
      exact ⟨t.keyManifests, rfl⟩
    · cases h
  · obtain ⟨keyManifests, -, hrest⟩ := bind_ok_iff.mp h
    obtain ⟨rfl, -⟩ := Prod.mk.inj (pure_ok_iff.mp hrest)
    exact ⟨keyManifests, rfl⟩

lemma putManifest_edits
    (h : putManifest digests t key = .ok (t', published)) : ContentEdits t t' := by
  obtain ⟨_, rfl⟩ := putManifest_ok h
  exact .single (.support ..)

lemma nextPublicationSeq_edits (t : Tables) : ContentEdits t (nextPublicationSeq t).1 :=
  .single .sequence

variable {prepared : PreparedArtifact}

/-- An artifact is put as a live row, or its live row takes the new sequence. -/
lemma putArtifact_edits (hexp : prepared.expected.lifecycle = .live)
    (h : putArtifact prepared t = .ok (t', published)) :
    ContentEdits t t' ∧ t'.ArtifactPublished t.publicationSeq prepared.artifactId := by
  have hseq := nextPublicationSeq_edits t
  dsimp only [putArtifact, nextPublicationSeq] at h
  split at h
  · rename_i row hfind
    obtain ⟨hrow, hkey⟩ := find?_eq_some.mp hfind
    obtain ⟨hlive, hrest⟩ := refuse_ok_iff.mp h
    split at hrest
    · cases hrest
      refine ⟨hseq.tail (.touchArtifacts (updated_update ..)), _,
        change_mem_update hrow (decide_eq_true hkey), hkey, ?_, Nat.lt_succ_self _, le_rfl⟩
      simpa [ArtifactRow.isLive] using hlive
    · cases hrest
  · simp only [bind_ok_iff, pure_ok_iff, Prod.mk.injEq] at h
    obtain ⟨_, hinsert, _, -, rfl, -⟩ := h
    have hins := insertRow_ok hinsert
    refine ⟨(hseq.tail (.insertArtifact hins rfl)).tail (.support ..), _,
      (hins.mem_iff _).mpr (.inr rfl), rfl, ?_, Nat.lt_succ_self _, le_rfl⟩
    simpa [ArtifactRow.isLive] using hexp

variable {artifact : ArtifactWrite}

lemma prepareArtifact_ok (h : prepareArtifact digests artifact = .ok prepared) :
    prepared.artifactId = artifact.key.key.digest digests ∧ prepared.expected.lifecycle = .live := by
  obtain ⟨_, -, hrest⟩ := bind_ok_iff.mp h
  obtain rfl := pure_ok_iff.mp hrest
  exact ⟨rfl, rfl⟩

lemma putRoot_edits {root : Option CanonicalKey} (h : putRoot digests t root = .ok t') :
    ContentEdits t t' := by
  cases root with
  | none =>
    obtain rfl := pure_ok_iff.mp h
    exact .refl
  | some root =>
    obtain ⟨⟨_, _⟩, hput, hrest⟩ := bind_ok_iff.mp h
    obtain rfl := pure_ok_iff.mp hrest
    exact putManifest_edits hput

lemma insertPrepared_edits (hexp : prepared.expected.lifecycle = .live)
    (h : insertPrepared digests artifact prepared t = .ok (t', published)) :
    ContentEdits t t' ∧ t'.ArtifactPublished t.publicationSeq prepared.artifactId := by
  obtain ⟨⟨_, _⟩, hkey, hrest⟩ := bind_ok_iff.mp h
  obtain ⟨_, hroot, hput⟩ := bind_ok_iff.mp hrest
  obtain ⟨hedits, row, hrow, hid, hlive, hseq, hcur⟩ := putArtifact_edits hexp hput
  have hmanifests := (putManifest_edits hkey).trans (putRoot_edits hroot)
  exact ⟨hmanifests.trans hedits, row, hrow, hid, hlive, (seq_le hmanifests).trans_lt hseq, hcur⟩

/-! ### Evidence sets -/

/-- Evidence is inserted when the artifact it concludes is live. -/
lemma insertEvidence_edits {prepared : PreparedEvidence}
    (hexp : prepared.expected.lifecycle = .live)
    (hart : ∀ id, prepared.expected.artifactId = some id → t.ArtifactIsLive id)
    (h : insertEvidence prepared t = .ok (t', published)) :
    ContentEdits t t' ∧ t'.EvidencePublished t.publicationSeq prepared.id ∧
      t'.artifacts = t.artifacts := by
  have hseq := nextPublicationSeq_edits t
  dsimp only [insertEvidence, nextPublicationSeq] at h
  split at h
  · rename_i row hfind
    obtain ⟨hrow, hkey⟩ := find?_eq_some.mp hfind
    obtain ⟨hlive, hrest⟩ := refuse_ok_iff.mp h
    split at hrest
    · cases hrest
      refine ⟨hseq.tail (.touchEvidence (updated_update ..)),
        ⟨_, change_mem_update hrow (decide_eq_true hkey), hkey, ?_, Nat.lt_succ_self _, le_rfl⟩, rfl⟩
      simpa [EvidenceRow.isLive] using hlive
    · cases hrest
  · simp only [bind_ok_iff, pure_ok_iff, Prod.mk.injEq] at h
    obtain ⟨_, hinsert, _, -, rfl, -⟩ := h
    have hins := insertRow_ok hinsert
    refine ⟨(hseq.tail (.insertEvidence hins hart rfl)).tail (.support ..),
      ⟨_, (hins.mem_iff _).mpr (.inr rfl), rfl, ?_, Nat.lt_succ_self _, le_rfl⟩, rfl⟩
    simpa [EvidenceRow.isLive] using hexp

lemma prepareEvidence_ok {subject : EvidenceSubject} {artifact : Option Digest}
    {observations : List Observation} {prepared : PreparedEvidence}
    (h : prepareEvidence digests subject artifact observations = .ok prepared) :
    prepared.expected.artifactId = artifact ∧ prepared.expected.lifecycle = .live := by
  obtain ⟨⟨_, _⟩, -, hrest⟩ := bind_ok_iff.mp h
  obtain rfl := pure_ok_iff.mp hrest
  exact ⟨rfl, rfl⟩

/-- The evidence a publication with facts prepares concludes the artifact it
prepares. -/
lemma prepareFactsWithEvidence_ok {key : ArtifactKeyRef} {facts : ArtifactFacts}
    (h : prepareFactsWithEvidence digests key facts ev = .ok (artifact, prepared, concluded)) :
    prepared.expected.lifecycle = .live ∧ concluded.expected.lifecycle = .live ∧
      concluded.expected.artifactId = some prepared.artifactId := by
  unfold prepareFactsWithEvidence at h
  split at h
  · cases h
  · simp only [bind_ok_iff] at h
    obtain ⟨_, -, _, -, _, -, _, hev, _, -, _, hart, h⟩ := h
    obtain ⟨rfl, hrest⟩ := Prod.mk.inj (pure_ok_iff.mp h)
    obtain ⟨rfl, rfl⟩ := Prod.mk.inj hrest
    obtain ⟨hid, hlive⟩ := prepareArtifact_ok hart
    obtain ⟨hconc, hevidenceLive⟩ := prepareEvidence_ok hev
    exact ⟨hlive, hevidenceLive, by rw [hconc, hid]⟩

variable {ctx : CanonicalKey}

lemma insertWithEvidence_edits {published : PublishedEvidence}
    (hexp : prepared.expected.lifecycle = .live) (hconcl : concluded.expected.lifecycle = .live)
    (hconc : concluded.expected.artifactId = some prepared.artifactId)
    (h : insertWithEvidence digests artifact ctx prepared concluded t = .ok (t', published)) :
    ContentEdits t t' ∧ t'.ArtifactPublished t.publicationSeq prepared.artifactId ∧
      t'.EvidencePublished t.publicationSeq concluded.id := by
  simp only [insertWithEvidence, bind_ok_iff, Prod.exists, pure_ok_iff, Prod.mk.injEq] at h
  obtain ⟨put, _, hput, _, _, hkeyed, _, _, hins, rfl, -⟩ := h
  obtain ⟨hart, row, hrow, hid, hlive, hseq, hcur⟩ := insertPrepared_edits hexp hput
  obtain ⟨keyManifests, rfl⟩ := putManifest_ok hkeyed
  -- the evidence comes after the artifact it concludes, and leaves its row alone
  have hconcludedLive : ∀ id, concluded.expected.artifactId = some id →
      { put with keyManifests }.ArtifactIsLive id := by
    intro id hsome
    obtain rfl : prepared.artifactId = id := Option.some.inj (hconc.symm.trans hsome)
    exact ⟨row, hrow, hid, hlive⟩
  obtain ⟨hev, ⟨set, hset, hsetId, hsetLive, hsetSeq, hsetCurrent⟩, hartifacts⟩ :=
    insertEvidence_edits hconcl hconcludedLive hins
  have hafter := seq_le hev
  refine ⟨(hart.tail (.support ..)).trans hev, ⟨row, ?_, hid, hlive, hseq, hcur.trans hafter⟩,
    set, hset, hsetId, hsetLive, (seq_le hart).trans_lt hsetSeq, hsetCurrent⟩
  rw [hartifacts]
  exact hrow

variable {target : EvidenceTarget}

lemma prepareTargetEvidence_ok {prepared : PreparedEvidence}
    (h : prepareTargetEvidence digests target ev = .ok prepared) :
    prepared.expected.artifactId = none ∧ prepared.expected.lifecycle = .live := by
  simp only [prepareTargetEvidence, bind_ok_iff] at h
  obtain ⟨_, -, _, -, _, -, h⟩ := h
  exact prepareEvidence_ok h

lemma insertTargetEvidence_edits {prepared : PreparedEvidence} {published : PublishedSet}
    (hnone : prepared.expected.artifactId = none) (hexp : prepared.expected.lifecycle = .live)
    (h : insertTargetEvidence digests target ctx prepared t = .ok (t', published)) :
    ContentEdits t t' ∧ t'.EvidencePublished t.publicationSeq prepared.id := by
  simp only [insertTargetEvidence, bind_ok_iff, Prod.exists, pure_ok_iff, Prod.mk.injEq] at h
  obtain ⟨_, _, hkeyed, _, _, htargeted, _, _, hins, rfl, -⟩ := h
  have hmanifests := (putManifest_edits hkeyed).trans (putManifest_edits htargeted)
  obtain ⟨hev, ⟨row, hrow, hid, hlive, hseq, hcur⟩, -⟩ :=
    insertEvidence_edits hexp (by simp [hnone]) hins
  exact ⟨hmanifests.trans hev, row, hrow, hid, hlive, (seq_le hmanifests).trans_lt hseq, hcur⟩

/-! ### Member records -/

lemma requireArtifact_ok {id : Digest} (h : requireArtifact t id = .ok ()) :
    t.ArtifactIsLive id := by
  unfold requireArtifact at h
  split at h
  · cases h
  · rename_i row hfind
    obtain ⟨hrow, hkey⟩ := find?_eq_some.mp hfind
    split at h
    · rename_i hlive
      exact ⟨row, hrow, hkey, decide_eq_true hlive⟩
    · cases h

/-- The live row that `requireEvidence` finds. -/
lemma requireEvidence_ok {id : Digest} {artifact : Option Digest}
    (h : requireEvidence t id purpose artifact = .ok ()) :
    ∃ row ∈ t.evidenceSets, row.evidenceId = id ∧ row.isLive = true ∧
      row.stored.purpose = purpose := by
  unfold requireEvidence at h
  split at h
  · cases h
  · rename_i row hfind
    obtain ⟨hrow, hkey⟩ := find?_eq_some.mp hfind
    obtain ⟨hlive, hrest⟩ := refuse_ok_iff.mp h
    obtain ⟨hpurpose, -⟩ := refuse_ok_iff.mp hrest
    refine ⟨row, hrow, hkey, ?_, ?_⟩
    · simpa [EvidenceRow.isLive] using hlive
    · exact not_not.mp fun hne => hpurpose (.inl hne)

lemma requireEvidence_isLive {id : Digest} {artifact : Option Digest}
    (h : requireEvidence t id purpose artifact = .ok ()) : t.EvidenceIsLive id := by
  obtain ⟨row, hrow, hid, hlive, -⟩ := requireEvidence_ok h
  exact ⟨row, hrow, hid, hlive⟩

variable {record : MemberRecord}

lemma requireReferences_ok (h : requireReferences record t = .ok ()) :
    (∀ id, record.header.artifact = some id → t.ArtifactIsLive id) ∧
      (∀ id, record.header.memberEvidence = some id → t.EvidenceIsLive id) ∧
      ∀ binding ∈ record.bindings.toList, ∀ id, binding.evidence = some id →
        t.EvidenceIsLive id := by
  obtain ⟨_, hart, h⟩ := bind_ok_iff.mp h
  obtain ⟨_, hev, h⟩ := bind_ok_iff.mp h
  refine ⟨?_, ?_, ?_⟩
  · intro id hid
    exact requireArtifact_ok (option_forM_ok hart hid)
  · intro id hid
    exact requireEvidence_isLive (option_forM_ok hev hid)
  · intro binding hbind id hid
    apply requireEvidence_isLive (forM_ok_iff.mp h id ?_)
    exact mem_eraseDups.mpr (mem_filterMap.mpr ⟨binding, hbind, hid⟩)

variable {ordinal : Nat}

/-- Encoding keeps the evidence of every binding. -/
lemma encodeBindingsFrom_ok {content bytes : Nat} {bindings : List Binding}
    {encoded : List EncodedBinding}
    (h : encodeBindingsFrom content ordinal bindings = .ok (encoded, bytes)) :
    encoded.map EncodedBinding.evidence = bindings.map Binding.evidence := by
  induction bindings generalizing content ordinal encoded bytes with
  | nil =>
    cases h
    rfl
  | cons _ bindings ih =>
    simp only [encodeBindingsFrom, bind_ok_iff, Prod.exists, pure_ok_iff, Prod.mk.injEq] at h
    obtain ⟨_, -, _, _, hrest, rfl, -⟩ := h
    rw [map_cons, map_cons, ih hrest]

variable {encoded : EncodedRecord}

lemma encodeRecord_ok (h : encodeRecord digests record = .ok encoded) :
    encoded.bindings.map EncodedBinding.evidence = record.bindings.toList.map Binding.evidence := by
  simp only [encodeRecord, bind_ok_iff, Prod.exists, pure_ok_iff] at h
  obtain ⟨_, -, _, -, bindings, _, hbinds, rfl⟩ := h
  exact encodeBindingsFrom_ok hbinds

lemma mem_bindingRows {recordId : Digest} {bindings : List EncodedBinding} {row : BindingRow}
    (h : row ∈ bindingRows recordId ordinal bindings) :
    row.recordId = recordId ∧ row.evidenceId ∈ bindings.map EncodedBinding.evidence := by
  induction bindings generalizing ordinal with
  | nil => cases h
  | cons _ bindings ih =>
    rcases mem_cons.mp h with rfl | hrest
    · exact ⟨rfl, mem_cons_self ..⟩
    · obtain ⟨hid, hev⟩ := ih hrest
      exact ⟨hid, mem_cons_of_mem _ hev⟩

lemma insertRecord_edits {exp : StoredRecord} (hexp : exp.lifecycle = .live)
    (hart : ∀ id, exp.artifactId = some id → t.ArtifactIsLive id)
    (hev : ∀ id, exp.memberEvidence = some id → t.EvidenceIsLive id)
    (hbound : ∀ id, some id ∈ encoded.bindings.map EncodedBinding.evidence → t.EvidenceIsLive id)
    (h : insertRecord encoded exp t = .ok (t', published)) :
    ContentEdits t t' ∧ t'.RecordPublished t.publicationSeq encoded.id := by
  have hseq := nextPublicationSeq_edits t
  dsimp only [insertRecord, nextPublicationSeq] at h
  split at h
  · rename_i row hfind
    obtain ⟨hrow, hkey⟩ := find?_eq_some.mp hfind
    obtain ⟨hlive, hrest⟩ := refuse_ok_iff.mp h
    split at hrest
    · cases hrest
      refine ⟨hseq.tail (.touchRecords (updated_update ..)), _,
        change_mem_update hrow (decide_eq_true hkey), hkey, ?_, Nat.lt_succ_self _, le_rfl⟩
      simpa [RecordRow.isLive] using hlive
    · cases hrest
  · simp only [bind_ok_iff, pure_ok_iff, Prod.mk.injEq] at h
    obtain ⟨_, hinsert, _, hbinds, rfl, -⟩ := h
    have hins := insertRow_ok hinsert
    refine ⟨hseq.tail (.insertRecord hins (insertRows_ok hbinds) ?_ hart hev
      ?_ rfl), _, (hins.mem_iff _).mpr (.inr rfl), rfl, ?_, Nat.lt_succ_self _, le_rfl⟩
    · intro binding hbind
      exact (mem_bindingRows hbind).1
    · intro binding hbind id hid
      exact hbound id (hid ▸ (mem_bindingRows hbind).2)
    · simpa [RecordRow.isLive] using hexp

lemma putRecord_edits {published : PublishedRecord}
    (henc : prepareRecord digests record = .ok encoded)
    (h : putRecord record encoded t = .ok (t', published)) :
    ContentEdits t t' ∧ t'.RecordPublished t.publicationSeq encoded.id := by
  simp only [putRecord, bind_ok_iff, Prod.exists, pure_ok_iff, Prod.mk.injEq] at h
  obtain ⟨_, hrefs, _, _, hins, rfl, -⟩ := h
  replace henc := ok_of_bind_ok (ok_of_bind_ok henc)
  obtain ⟨hart, hev, hbinds⟩ := requireReferences_ok hrefs
  refine insertRecord_edits rfl hart hev ?_ hins
  intro id hid
  rw [encodeRecord_ok henc] at hid
  obtain ⟨binding, hbind, hsome⟩ := mem_map.mp hid
  exact hbinds binding hbind id hsome

/-! ## Snapshots -/

variable {builder : SnapshotBuilder}

lemma insertSnapshot_edits {id token : Nonce} {lease : ProcessLease} {now : Nat}
    (h : insertSnapshot digests ctx id token lease now t = .ok (t', builder)) :
    Edits t t' := by
  simp only [insertSnapshot, bind_ok_iff, Prod.exists, pure_ok_iff, Prod.mk.injEq] at h
  obtain ⟨_, _, hkeyed, _, hins, _, -, rfl, -⟩ := h
  have hmanifest := edits (putManifest_edits hkeyed)
  have hsnap := hmanifest.tail (.snapshot (.insert (insertRow_ok hins) rfl))
  exact (hsnap.tail (.leases _)).tail (.content (.support ..))

lemma SnapshotBuilder.holds_iff {row : SnapshotRow} :
    builder.holds row = true ↔ row.snapshotId = builder.id ∧ row.builderToken = builder.token ∧
      row.buildRevision = builder.revision ∧ row.state = .building := by
  simp only [SnapshotBuilder.holds, Bool.and_eq_true, decide_eq_true_eq, and_assoc]

lemma advanceRevision_edits {added start : Nat}
    (h : advanceRevision builder added t = .ok (t', start)) :
    Edits t t' ∧ ∃ row ∈ t'.snapshots, row.snapshotId = builder.id := by
  unfold advanceRevision at h
  split at h
  · cases h
  · rename_i row hheld
    obtain ⟨hrow, hid, -⟩ := heldRow_eq_some hheld
    obtain ⟨-, h⟩ := refuse_ok_iff.mp h
    cases h
    have hupd := updated_update t.snapshots builder.holds (.advance added) fun _ => rfl
    refine ⟨.single (.snapshot (.change hupd (fun _ => rfl) (fun _ _ => id) ?_)), ?_⟩
    · exact fun _ _ _ _ => .inl
    · exact hupd.exists_mem (fun _ => id) ⟨row, hrow, hid⟩

variable {snapshot : Nonce}

lemma insertMember_edits {record : Digest} (howner : ∃ row ∈ t.snapshots, row.snapshotId = snapshot)
    (h : insertMember snapshot ordinal record t = .ok t') :
    Edits t t' ∧ t'.snapshots = t.snapshots := by
  unfold insertMember at h
  split at h
  · cases h
  · rename_i row hfind
    obtain ⟨hrow, hkey⟩ := find?_eq_some.mp hfind
    obtain ⟨hlive, h⟩ := refuse_ok_iff.mp h
    obtain ⟨-, h⟩ := refuse_ok_iff.mp h
    obtain ⟨_, hins, h⟩ := bind_ok_iff.mp h
    obtain rfl := pure_ok_iff.mp h
    refine ⟨.single (.snapshot (.insertMember (insertRow_ok hins) ?_ howner)), rfl⟩
    exact ⟨row, hrow, hkey, by simpa [RecordRow.isLive] using hlive⟩

lemma insertMembers_edits {records : List Digest}
    (howner : ∃ row ∈ t.snapshots, row.snapshotId = snapshot)
    (h : insertMembers snapshot ordinal records t = .ok t') : Edits t t' := by
  induction records generalizing ordinal t with
  | nil =>
    cases h
    exact .refl
  | cons _ records ih =>
    obtain ⟨_, hnext, h⟩ := bind_ok_iff.mp h
    obtain ⟨hedits, hsame⟩ := insertMember_edits howner hnext
    exact hedits.trans (ih (hsame ▸ howner) h)

lemma appendMembers_edits {builder builder' : SnapshotBuilder} {records : List Digest}
    (h : appendMembers builder records t = .ok (t', builder')) : Edits t t' := by
  simp only [appendMembers, bind_ok_iff, Prod.exists, pure_ok_iff, Prod.mk.injEq] at h
  obtain ⟨_, _, hadv, _, hmems, _, -, rfl, -⟩ := h
  obtain ⟨hedits, howner⟩ := advanceRevision_edits hadv
  exact hedits.trans (insertMembers_edits howner hmems)

lemma requireDiscovery_ok {ctx discovery : Digest} (h : requireDiscovery t ctx discovery = .ok ()) :
    t.EvidenceIsLive discovery := by
  unfold requireDiscovery at h
  split at h
  · cases h
  · cases h
  · rename_i hrequired
    exact requireEvidence_isLive hrequired

lemma sealStatements_edits {count : Nat} {digest : Digest} {header : SnapshotHeader}
    (h : sealStatements builder terms count digest t = .ok (t', header)) : Edits t t' := by
  unfold sealStatements at h
  split at h
  · cases h
  · simp only [bind_ok_iff, pure_ok_iff, Prod.mk.injEq] at h
    obtain ⟨_, -, _, -, _, hdisc, rfl, -⟩ := h
    have hlive : ∀ id, terms.discovery = some id → t.EvidenceIsLive id := by
      intro id hid
      exact requireDiscovery_ok (option_forM_ok hdisc hid)
    have hseq := edits (nextPublicationSeq_edits t)
    have hupd := updated_update t.snapshots builder.holds
      (.complete terms digest (t.publicationSeq + 1)) fun _ => rfl
    refine (hseq.tail (.snapshot (.change hupd (fun _ => rfl) ?_ ?_))).tail
      (.content (.support ..))
    · intro row hholds _
      obtain ⟨-, -, -, hbuild⟩ := SnapshotBuilder.holds_iff.mp hholds
      exact decide_eq_true (by simp [hbuild])
    · intro row _ _ id hid
      exact .inr (hlive id hid)

/-- The members of one batch follow those that are there. -/
structure MemberBatch (id : Nonce) (start : Nat) (added : List MemberRow) : Prop where
  owner : ∀ member ∈ added, member.snapshotId = id
  ordinals : added.map MemberRow.ordinal = range' start added.length
  bounded : ∀ member ∈ added, 32 + member.sourceKey.length ≤ maxRowBatchBytes

/-- The members that a batch inserts. -/
lemma insertMembers_ok {records : List Digest}
    (h : insertMembers snapshot ordinal records t = .ok t') :
    ∃ (added : List MemberRow) (snapshotMembers : Table MemberRow),
      t' = { t with snapshotMembers } ∧
      (∀ member, member ∈ snapshotMembers ↔ member ∈ t.snapshotMembers ∨ member ∈ added) ∧
      (∀ member ∈ added, member.snapshotId = snapshot) ∧
      added.map MemberRow.ordinal = range' ordinal added.length ∧
      added.length = records.length := by
  induction records generalizing ordinal t with
  | nil =>
    cases h
    exact ⟨[], t'.snapshotMembers, rfl, by simp, by simp, rfl, rfl⟩
  | cons record records ih =>
    obtain ⟨_, hnext, h⟩ := bind_ok_iff.mp h
    obtain ⟨added, snapshotMembers, rfl, hmem, howner, hords, hlen⟩ := ih h
    unfold insertMember at hnext
    split at hnext
    · cases hnext
    · rename_i row hfind
      obtain ⟨-, hnext⟩ := refuse_ok_iff.mp hnext
      obtain ⟨-, hnext⟩ := refuse_ok_iff.mp hnext
      obtain ⟨_, hins, hnext⟩ := bind_ok_iff.mp hnext
      obtain rfl := pure_ok_iff.mp hnext
      let member : MemberRow := { snapshotId := snapshot, ordinal, recordId := record,
                                  sourceKey := row.stored.sourceKey }
      refine ⟨member :: added, snapshotMembers, rfl, ?_, ?_, ?_, by simp [hlen]⟩
      · intro other
        rw [hmem, (insertRow_ok hins).mem_iff, mem_cons, or_assoc]
      · exact forall_mem_cons.mpr ⟨rfl, howner⟩
      · simp [member, hords, range'_succ]

/-- A batch that passed the check has no member that a reader could not take. -/
lemma checkBatch_ok {start added : Nat} {id : Nonce} (h : checkBatch id start added t = .ok ())
    (hadded : 0 < added)
    {member : MemberRow} (hmember : member ∈ t.snapshotMembers) (hid : member.snapshotId = id)
    (hstart : start ≤ member.ordinal) : 32 + member.sourceKey.length ≤ maxRowBatchBytes := by
  have hbytes : batchBytes id start added t ≤ maxRowBatchBytes := by
    exact not_lt.mp (refuse_ok_iff.mp h).1
  have hlen : member.sourceKey.length ≤ ((t.snapshotMembers.rows.filter fun member =>
      member.snapshotId = id && start ≤ member.ordinal).map fun member =>
        member.sourceKey.length).sum := by
    apply le_sum_of_mem
    apply mem_map_of_mem (f := fun member : MemberRow => member.sourceKey.length)
    exact mem_filter.mpr ⟨hmember, by simp [hid, hstart]⟩
  unfold batchBytes at hbytes
  omega

/-- A batch that is added: the build was held, and its members continue. -/
lemma appendMembers_ok {builder builder' : SnapshotBuilder} {records : List Digest}
    (h : appendMembers builder records t = .ok (t', builder')) :
    ∃ (row : SnapshotRow) (added : List MemberRow) (snapshotMembers : Table MemberRow),
      heldRow t builder = some row ∧ row.memberCount + added.length ≤ maxSnapshotMembers ∧
      MemberBatch builder.id row.memberCount added ∧
      (∀ member, member ∈ snapshotMembers ↔ member ∈ t.snapshotMembers ∨ member ∈ added) ∧
      t' = { t with
        snapshots := t.snapshots.update builder.holds (.advance added.length) fun _ => rfl
        snapshotMembers } ∧
      builder' = { builder with revision := builder.revision + 1 } := by
  simp only [appendMembers, bind_ok_iff, Prod.exists, pure_ok_iff, Prod.mk.injEq] at h
  obtain ⟨_, _, hadv, _, happended, _, hcheck, rfl, rfl⟩ := h
  unfold advanceRevision at hadv
  split at hadv
  · cases hadv
  · rename_i row hheld
    obtain ⟨hcount, hadv⟩ := refuse_ok_iff.mp hadv
    cases hadv
    obtain ⟨added, snapshotMembers, rfl, hmem, howner, hords, hlen⟩ := insertMembers_ok happended
    rw [← hlen] at hcount hcheck
    refine ⟨row, added, snapshotMembers, hheld, Nat.le_of_not_lt hcount,
      ⟨howner, hords, ?_⟩, hmem, by rw [hlen], rfl⟩
    intro member hmember
    have hord : member.ordinal ∈ range' row.memberCount added.length := by
      rw [← hords]
      exact mem_map_of_mem hmember
    apply checkBatch_ok hcheck ?_ ((hmem member).mpr (.inr hmember)) (howner member hmember)
    · exact (mem_range'_1.mp hord).1
    · exact length_pos_of_mem hmember

/-- A seal: the build was held with as many members as were counted. -/
lemma sealStatements_ok {count : Nat} {digest : Digest} {header : SnapshotHeader}
    (h : sealStatements builder terms count digest t = .ok (t', header)) :
    ∃ row, heldRow t builder = some row ∧ row.memberCount = count ∧
      t'.snapshots = t.snapshots.update builder.holds
        (.complete terms digest (t.publicationSeq + 1)) (fun _ => rfl) ∧
      t'.snapshotMembers = t.snapshotMembers ∧ t'.processLeases = t.processLeases := by
  unfold sealStatements at h
  split at h
  · cases h
  · rename_i memberCount hheldCount
    obtain ⟨row, hheld, rfl⟩ := Option.map_eq_some_iff.mp hheldCount
    simp only [bind_ok_iff, pure_ok_iff, Prod.mk.injEq] at h
    obtain ⟨_, hcheck, _, -, _, -, rfl, -⟩ := h
    exact ⟨row, hheld, not_not.mp (refuse_ok_iff.mp hcheck).1, rfl, rfl, rfl⟩

lemma retireRows_edits (leaseHolds : Table HoldRow) {p : SnapshotRow → Prop}
    {snapshots : Table SnapshotRow} (h : Table.Updated t.snapshots snapshots p .retire) :
    Edits t { t with snapshots, leaseHolds } := by
  have hretire : Edits t { t with snapshots } := by
    apply ReflTransGen.single
    apply Edit.snapshot
    refine .change h (fun _ => rfl) ?_ ?_
    · intro row _ hactive
      cases hactive
    · intro row _ hactive
      cases hactive
  exact hretire.tail (.content (.support ..))

/-! ## Retirement -/

lemma of_isUnlistedRecord {cutoff : Nat} {row : RecordRow}
    (h : isUnlistedRecord t cutoff row = true) :
    row.publicationSeq ≤ cutoff ∧ t.RecordUnlisted row.recordId := by
  simp [isUnlistedRecord, isListed, any_eq_false, and_assoc] at h
  exact h.2

lemma of_isUnreferencedEvidence {cutoff : Nat} {row : EvidenceRow}
    (h : isUnreferencedEvidence t cutoff row = true) :
    row.publicationSeq ≤ cutoff ∧ t.EvidenceUnreferenced row.evidenceId := by
  simp [isUnreferencedEvidence, isBound, any_eq_false, and_assoc] at h
  obtain ⟨-, hseq, hrecord, hbind, hsnap⟩ := h
  refine ⟨hseq, ⟨?_, ?_, ?_⟩⟩
  · intro record hmem hlive hname
    simp [hrecord record hmem hname] at hlive
  · intro binding hmem hname hlive
    obtain ⟨record, hrecordMem, hid, hrecordLive⟩ := hlive
    simp [hbind binding hmem hname record hrecordMem hid] at hrecordLive
  · intro snapshot hmem hactive hname
    simp [hsnap snapshot hmem hname] at hactive

lemma of_isUnreferencedArtifact {cutoff : Nat} {row : ArtifactRow}
    (h : isUnreferencedArtifact t cutoff row = true) :
    row.publicationSeq ≤ cutoff ∧ t.ArtifactUnreferenced row.artifactId := by
  simp [isUnreferencedArtifact, any_eq_false, and_assoc] at h
  obtain ⟨-, hseq, hrecord, hev⟩ := h
  refine ⟨hseq, ⟨?_, ?_⟩⟩
  · intro record hmem hlive hname
    simp [hrecord record hmem hname] at hlive
  · intro ev hmem hlive hname
    simp [hev ev hmem hname] at hlive

/-- The steps that retire snapshots. -/
def RetireStep.isOfSnapshots : RetireStep → Bool
  | abandonedBuilds => true
  | unusedSnapshots => true
  | records => false
  | evidence => false
  | artifacts => false

lemma RetireStep.content_edits (step : RetireStep) (hstep : step.isOfSnapshots = false)
    (limits : MaintenanceLimits) (scan : Scan) (pressured : Bool) (now : Nat) (t : Tables) :
    ContentEdits t (step.statement limits scan pressured now t).1 := by
  cases step with
  | abandonedBuilds | unusedSnapshots => cases hstep
  | records =>
    apply ReflTransGen.single
    apply ContentEdit.retireRecords
    apply (updated_updateSome _ _ _ _ RecordRow.retire fun _ => rfl).mono
    intro row hrow
    exact (of_isUnlistedRecord hrow).2
  | evidence =>
    apply ReflTransGen.single
    apply ContentEdit.retireEvidence
    apply (updated_updateSome _ _ _ _ EvidenceRow.retire fun _ => rfl).mono
    intro row hrow
    exact (of_isUnreferencedEvidence hrow).2
  | artifacts =>
    apply ReflTransGen.single
    apply ContentEdit.retireArtifacts
    apply (updated_updateSome _ _ _ _ ArtifactRow.retire fun _ => rfl).mono
    intro row hrow
    exact (of_isUnreferencedArtifact hrow).2

lemma RetireStep.statement_edits (step : RetireStep) (limits : MaintenanceLimits) (scan : Scan)
    (pressured : Bool) (now : Nat) (t : Tables) :
    Edits t (step.statement limits scan pressured now t).1 := by
  cases hstep : step.isOfSnapshots with
  | false => exact (step.content_edits hstep limits scan pressured now t).edits
  | true =>
    cases step with
    | abandonedBuilds | unusedSnapshots =>
      exact retireRows_edits _ (updated_updateSome _ _ _ _ SnapshotRow.retire fun _ => rfl)
    | records | evidence | artifacts => cases hstep

/-! ## Deletion -/

variable {steps : List DeleteStep}

/-- A step of a chain of deletions, and the rest of the chain from the states in
which the step has deleted fewer rows than it was allowed. -/
lemma runDeletes_cons {step : DeleteStep} {left : Nat} {t : Tables} (Q : Tables → Prop)
    (hstep : ∀ scan left, Edits t (step scan left t).1)
    (hpost : ∀ scan left, (step scan left t).2 < left → Q (step scan left t).1)
    (hrest : ∀ left t, Q t → Edits t (runDeletes scans steps left t).1) :
    Edits t (runDeletes scans (step :: steps) left t).1 := by
  unfold runDeletes
  split
  · exact .refl
  · refine (hstep (scans steps.length) left).trans ?_
    by_cases hlt : (step (scans steps.length) left t).2 < left
    · exact hrest _ _ (hpost (scans steps.length) left hlt)
    · -- the budget is spent, and the rest of the chain does nothing
      have hspent : left - (step (scans steps.length) left t).2 = 0 := by omega
      dsimp only
      rw [hspent]
      cases steps with
      | nil | cons step steps => exact .refl

/-- What each deletion of a chain relates in every state, the chain does. -/
lemma runDeletes_rel {R : Tables → Tables → Prop} (hrefl : ∀ t, R t t)
    (htrans : ∀ t₁ t₂ t₃, R t₁ t₂ → R t₂ t₃ → R t₁ t₃)
    (hsteps : ∀ step ∈ steps, ∀ scan left t, R t (step scan left t).1) (left : Nat) (t : Tables) :
    R t (runDeletes scans steps left t).1 := by
  induction steps generalizing left t with
  | nil => exact hrefl t
  | cons step steps ih =>
    unfold runDeletes
    split
    · exact hrefl t
    · have hrest := ih fun other hother => hsteps other (mem_cons_of_mem step hother)
      exact htrans _ _ _ (hsteps step (mem_cons_self ..) _ _ t) (hrest _ _)

/-- A chain of deletions that are edits in every state. -/
lemma runDeletes_edits (hsteps : ∀ step ∈ steps, ∀ scan left t, Edits t (step scan left t).1)
    (left : Nat) (t : Tables) : Edits t (runDeletes scans steps left t).1 :=
  runDeletes_rel (fun _ => .refl) (fun _ _ _ => .trans) hsteps left t

section Deletes

variable (scan : Scan) (left : Nat) (t : Tables)

lemma deleteSnapshots_edits (p : SnapshotRow → Bool)
    (hp : ∀ row, p row = true → ∀ member ∈ t.snapshotMembers, member.snapshotId ≠ row.snapshotId) :
    Edits t (deleteSnapshots scan left t p).1 :=
  .single (.snapshot (.delete ((deleted_deleteSome ..).mono hp)))

lemma deleteRecords_edits (p : RecordRow → Bool)
    (hp : ∀ row, p row = true → (row.isLive = true → t.RecordUnlisted row.recordId) ∧
      ∀ binding ∈ t.memberBindings, binding.recordId ≠ row.recordId) :
    Edits t (deleteRecords scan left t p).1 :=
  .single (.content (.deleteRecords ((deleted_deleteSome ..).mono hp)))

lemma deleteEvidence_edits (p : EvidenceRow → Bool)
    (hp : ∀ row, p row = true → row.isLive = true → t.EvidenceUnreferenced row.evidenceId) :
    Edits t (deleteEvidence scan left t p).1 :=
  .single (.content (.deleteEvidence ((deleted_deleteSome ..).mono hp)))

lemma deleteArtifacts_edits (p : ArtifactRow → Bool)
    (hp : ∀ row, p row = true → row.isLive = true → t.ArtifactUnreferenced row.artifactId) :
    Edits t (deleteArtifacts scan left t p).1 :=
  .single (.content (.deleteArtifacts ((deleted_deleteSome ..).mono hp)))

end Deletes

/-- Only rows that are retired and that nothing names are deleted in the live
scope. -/
lemma deleteSteps_edits (step : DeleteStep) (hstep : step ∈ deleteSteps) (scan : Scan)
    (left : Nat) (t : Tables) : Edits t (step scan left t).1 := by
  simp only [deleteSteps, mem_cons, not_mem_nil, or_false] at hstep
  rcases hstep with rfl | rfl | rfl | rfl | rfl | rfl | rfl | rfl | rfl | rfl
  · exact .single (.content (.support ..))
  · exact .single (.snapshot (.deleteMembers (deleted_deleteSome ..)))
  · apply deleteSnapshots_edits
    intro row hrow member hmember
    simp [isEmptySnapshot, any_eq_false] at hrow
    exact hrow.1.2 member hmember
  · exact .single (.content (.deleteBindings (deleted_deleteSome ..)))
  · apply deleteRecords_edits
    intro row hrow
    simp [isUnnamedRecord, any_eq_false] at hrow
    exact ⟨by simp [hrow.1.1], hrow.1.2⟩
  · exact .single (.content (.support ..))
  · apply deleteEvidence_edits
    intro row hrow hlive
    simp [isUnnamedEvidence, hlive] at hrow
  · exact .single (.content (.support ..))
  · apply deleteArtifacts_edits
    intro row hrow hlive
    simp [isUnnamedArtifact, hlive] at hrow
  · exact .single (.content (.support ..))

/-- A retired scope is emptied table by table: when one is reached, the tables
whose rows name its rows are empty. -/
lemma reclaimSteps_edits (scans : Nat → Scan) (left : Nat) (t : Tables) :
    Edits t (runDeletes scans reclaimSteps left t).1 := by
  apply runDeletes_cons fun _ => True
  · exact fun _ _ => .single (.content (.support ..))
  · exact fun _ _ _ => trivial
  intro left t _
  apply runDeletes_cons fun _ => True
  · exact fun _ _ => .single (.leases _)
  · exact fun _ _ _ => trivial
  intro left t _
  apply runDeletes_cons fun t => t.snapshotMembers.IsEmpty
  · exact fun _ _ => .single (.snapshot (.deleteMembers (deleted_deleteSome ..)))
  · exact fun scan left hlt => isEmpty_deleteSome hlt
  intro left t hmems
  apply runDeletes_cons fun t => t.snapshotMembers.IsEmpty ∧ t.snapshots.IsEmpty
  · intro scan left
    apply deleteSnapshots_edits
    exact fun row _ member hmember => absurd hmember (hmems member)
  · exact fun scan left hlt => ⟨hmems, isEmpty_deleteSome hlt⟩
  intro left t hsnaps
  apply runDeletes_cons fun t =>
    t.snapshotMembers.IsEmpty ∧ t.snapshots.IsEmpty ∧ t.memberBindings.IsEmpty
  · exact fun _ _ => .single (.content (.deleteBindings (deleted_deleteSome ..)))
  · exact fun scan left hlt => ⟨hsnaps.1, hsnaps.2, isEmpty_deleteSome hlt⟩
  intro left t hbinds
  apply runDeletes_cons fun t =>
    t.snapshots.IsEmpty ∧ t.memberBindings.IsEmpty ∧ t.memberRecords.IsEmpty
  · intro scan left
    apply deleteRecords_edits
    intro row _
    constructor
    · exact fun _ member hmember => absurd hmember (hbinds.1 member)
    · exact fun binding hbind => absurd hbind (hbinds.2.2 binding)
  · exact fun scan left hlt => ⟨hbinds.2.1, hbinds.2.2, isEmpty_deleteSome hlt⟩
  intro left t hrecs
  apply runDeletes_cons fun t =>
    t.snapshots.IsEmpty ∧ t.memberBindings.IsEmpty ∧ t.memberRecords.IsEmpty
  · exact fun _ _ => .single (.content (.support ..))
  · exact fun _ _ _ => hrecs
  intro left t hrecs
  apply runDeletes_cons fun t => t.memberRecords.IsEmpty ∧ t.evidenceSets.IsEmpty
  · intro scan left
    apply deleteEvidence_edits
    intro row _ _
    exact {
      record := fun record hrecord => absurd hrecord (hrecs.2.2 record)
      binding := fun binding hbind => absurd hbind (hrecs.2.1 binding)
      snapshot := fun snapshot hsnap => absurd hsnap (hrecs.1 snapshot) }
  · exact fun scan left hlt => ⟨hrecs.2.2, isEmpty_deleteSome hlt⟩
  intro left t hev
  apply runDeletes_cons fun t => t.memberRecords.IsEmpty ∧ t.evidenceSets.IsEmpty
  · exact fun _ _ => .single (.content (.support ..))
  · exact fun _ _ _ => hev
  intro left t hev
  apply runDeletes_cons fun _ => True
  · intro scan left
    apply deleteArtifacts_edits
    intro row _ _
    exact {
      record := fun record hrecord => absurd hrecord (hev.1 record)
      evidence := fun ev hmem => absurd hmem (hev.2 ev) }
  · exact fun _ _ _ => trivial
  intro left t _
  exact runDeletes_edits (forall_mem_singleton.mpr fun _ _ _ => .single (.content (.support ..))) ..

lemma reclaimScope_edits (scans : Nat → Scan) (scopes : RetiredScopes) (budget : Nat)
    (t : Tables) : Edits t (reclaimScope scans scopes budget t).1 := by
  unfold reclaimScope
  split
  · exact reclaimSteps_edits ..
  · exact .refl

lemma reclaimLive_edits (scans : Nat → Scan) (live : Bool) (budget : Nat) (t : Tables) :
    Edits t (reclaimLive scans live budget t).1 := by
  unfold reclaimLive
  split
  · exact runDeletes_edits deleteSteps_edits ..
  · exact .refl

/-! ## Lease operations and hints -/

lemma release_change {lease : ProcessLease} (h : release txn lease t = .ok (t', ())) :
    t.ContentChange t' := by
  obtain rfl := Txn.tables_of_finish (ok_of_bind_ok h)
  exact .leases ..

lemma openLease_change {id : Nonce} {lease : ProcessLease}
    (h : openLease txn id t = (lease, .ok (t', ()))) : t.ContentChange t' := by
  unfold openLease at h
  split at h
  · cases h
  · obtain ⟨-, hres⟩ := Prod.mk.inj h
    obtain rfl := Txn.tables_of_finish hres
    exact .leases ..

lemma bump_edits (t : Tables) (hint : Hint) : ContentEdits t (bump t hint) := by
  cases hint with
  | evidence id => exact .single (.touchEvidence (updated_update ..))
  | artifact id => exact .single (.touchArtifacts (updated_update ..))
  | record id => exact .single (.touchRecords (updated_update ..))

lemma bumpAll_edits (t : Tables) (changed : Nat) (hints : List Hint) :
    ContentEdits t (bumpAll t changed hints).1 := by
  induction hints generalizing t changed with
  | nil => exact .refl
  | cons hint hints ih => exact (bump_edits t hint).trans (ih _ _)

/-! ## Operations

What the writes commit, without the preparations before their transactions. -/

/-- The operations that touch neither snapshots nor their members. -/
def Op.isContent : Op → Bool
  | publishKey .. => true
  | publishArtifact .. => true
  | publishFacts .. => true
  | publishFactsWithEvidence .. => true
  | publishEvidence .. => true
  | publishMemberRecord .. => true
  | retireStep step .. => !step.isOfSnapshots
  | renewLease => true
  | expireLeases .. => true
  | holdSnapshot .. => true
  | releaseSnapshot .. => true
  | flushHints .. => true
  | beginSnapshot .. => false
  | addMembers .. => false
  | sealSnapshot .. => false
  | retireBuild .. => false
  | retireSnapshot .. => false
  | retireMemberRecord .. => false
  | reclaim .. => false

lemma Op.run_write_ok (hop : op.isWrite = true)
    (h : op.run digests txn lease t = (lease', .ok (t', reply))) :
    ∃ (stmts : Statements) (value : stmts.α), op.Writes digests txn lease stmts ∧
      write txn lease t stmts.run = (lease', .ok (t', value)) := by
  rcases run_write digests hop t with ⟨_, hrun⟩ | ⟨stmts, hwrites, hrun⟩
  · cases hrun.symm.trans h
  · obtain ⟨value, hwrite, -⟩ := keepBoth_ok (hrun.symm.trans h)
    exact ⟨stmts, value, hwrites, hwrite⟩

lemma Op.Writes.contentEdits {stmts : Statements} {value : stmts.α}
    (hwrites : op.Writes digests txn lease stmts) (hop : op.isContent = true)
    (h : stmts.run t = .ok (t', value)) : ContentEdits t t' := by
  cases hwrites with
  | publishKey => exact putManifest_edits h
  | publishArtifact hprep | publishFacts _ hprep =>
    exact (insertPrepared_edits (prepareArtifact_ok hprep).2 h).1
  | publishFactsWithEvidence hprep =>
    obtain ⟨hexp, hconcl, hconc⟩ := prepareFactsWithEvidence_ok hprep
    exact (insertWithEvidence_edits hexp hconcl hconc h).1
  | publishEvidence hprep =>
    obtain ⟨hnone, hexp⟩ := prepareTargetEvidence_ok hprep
    exact (insertTargetEvidence_edits hnone hexp h).1
  | publishMemberRecord henc => exact (putRecord_edits henc h).1
  | _ => cases hop

lemma Op.content_change (hop : op.isContent = true)
    (h : op.run digests txn lease t = (lease', .ok (t', reply))) : t.ContentChange t' := by
  cases hwrite : op.isWrite with
  | true =>
    obtain ⟨_, _, hwrites, h⟩ := run_write_ok hwrite h
    obtain ⟨processLeases, h⟩ := write_statements h
    exact ⟨processLeases, hwrites.contentEdits hop h⟩
  | false =>
    cases run_commits digests hwrite h with
    | unchanged => exact change .refl
    | @retireStep step => exact change (step.content_edits (by simpa [isContent] using hop) ..)
    | renewLease | expireLeases | holdSnapshot | releaseSnapshot => exact .leases ..
    | flushHints => exact change ((nextPublicationSeq_edits t).trans (bumpAll_edits ..))
    | _ => cases hop

/-- Whether an operation retires a record without looking for snapshots that list
it. -/
def Op.isDirectRetirement : Op → Bool
  | retireMemberRecord _ => true
  | _ => false

/-- Every other operation commits edits. -/
lemma Op.run_edits (hop : op.isDirectRetirement = false)
    (h : op.run digests txn lease t = (lease', .ok (t', reply))) : Edits t t' := by
  cases hcont : op.isContent with
  | true => exact (Op.content_change hcont h).edits
  | false =>
    cases hwrite : op.isWrite with
    | true =>
      obtain ⟨_, _, hwrites, h⟩ := run_write_ok hwrite h
      obtain ⟨processLeases, h⟩ := write_statements h
      refine (ReflTransGen.single (.leases processLeases)).trans ?_
      cases hwrites with
      | beginSnapshot => exact insertSnapshot_edits h
      | addMembers => exact appendMembers_edits h
      | sealSnapshot => exact sealStatements_edits h
      | _ => cases hcont
    | false =>
      cases run_commits digests hwrite h with
      | unchanged => exact .refl
      | retireBuild | retireSnapshot => exact retireRows_edits _ (updated_update ..)
      | @retireStep step => exact step.statement_edits ..
      | reclaim => exact (reclaimScope_edits ..).trans (reclaimLive_edits ..)
      | retireMemberRecord => cases hop
      | _ => cases hcont

/-! ## Steps -/

def Step.isDirectRetirement (step : Step) : Bool :=
  match step.action with
  | .run op => op.isDirectRetirement
  | _ => false

/-- A step of a process commits edits, or leaves the tables as they are. -/
lemma World.StepsTo.edits {world world' : World} {step : Step}
    (h : world.StepsTo digests step world') (hstep : step.isDirectRetirement = false) :
    Edits world.tables world'.tables := by
  cases h with
  | idle => exact .refl
  | opened _ _ hopen => exact (openLease_change hopen).edits
  | dropped _ _ htables =>
    rcases htables with rfl | hrel
    · exact .refl
    · exact (release_change hrel).edits
  | failed => exact .refl
  | committed haction _ hrun =>
    refine Op.run_edits ?_ hrun
    simpa [Step.isDirectRetirement, haction] using hstep

end Lint4d.Store
