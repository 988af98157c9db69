import Lint4d.Store.LeaseRows

/-!
# One snapshot at a time

Everything the store keeps of one snapshot is its row and its members in
ordinal order: its view.  A committed step moves the view of every snapshot in
one of a few ways, and the ways that change a build name the operation and the
builder that made them.
-/

namespace Lint4d.Store

open Lint4d.Lib Lint4d.Cache Lint4d.Facts Table Tables

variable {digests : Digests} {t t' : Tables} {id : Nonce} {members : List MemberRow} {count : Nat}
  {lease : ProcessLease} {row : SnapshotRow}

/-! ## Members in order -/

lemma mem_membersFrom {start : Nat} {member : MemberRow} :
    member ∈ membersFrom t id start ↔
      member ∈ t.snapshotMembers ∧ member.snapshotId = id ∧ start ≤ member.ordinal := by
  simp [membersFrom, mem_def]

/-- The members come in strictly increasing ordinals: the ordinal is part of the
key. -/
lemma membersFrom_pairwise (t : Tables) (id : Nonce) (start : Nat) :
    (membersFrom t id start).Pairwise fun a b => a.ordinal < b.ordinal := by
  have hsorted : (membersFrom t id start).Pairwise fun a b => a.ordinal ≤ b.ordinal :=
    List.pairwise_insertionSort _ _
  have hnodup : (membersFrom t id start).Nodup := by
    apply (List.perm_insertionSort _ _).nodup_iff.mpr
    exact (List.Nodup.of_map _ t.snapshotMembers.unique).filter _
  apply (hsorted.and hnodup).imp_of_mem
  intro a b ha hb hab
  apply Nat.lt_of_le_of_ne hab.1
  intro heq
  obtain ⟨ha, haId, -⟩ := mem_membersFrom.mp ha
  obtain ⟨hb, hbId, -⟩ := mem_membersFrom.mp hb
  exact hab.2 (eq_of_key ha hb (Prod.ext (haId.trans hbId.symm) heq))

lemma nodup_of_ordinals
    (h : members.Pairwise fun a b => a.ordinal < b.ordinal) : members.Nodup := by
  apply h.imp
  intro a b hlt heq
  rw [heq] at hlt
  exact Nat.lt_irrefl _ hlt

/-- Two lists in increasing ordinals with the same members are one list. -/
lemma eq_of_ordinals {others : List MemberRow}
    (hmems : members.Pairwise fun a b => a.ordinal < b.ordinal)
    (hothers : others.Pairwise fun a b => a.ordinal < b.ordinal)
    (hmem : ∀ member, member ∈ members ↔ member ∈ others) : members = others := by
  have hperm : members.Perm others :=
    (List.perm_ext_iff_of_nodup (nodup_of_ordinals hmems) (nodup_of_ordinals hothers)).mpr hmem
  refine hperm.eq_of_pairwise ?_ hmems hothers
  intro a b _ _ hab hba
  exact absurd (hab.trans hba) (Nat.lt_irrefl _)

lemma membersFrom_congr (h : ∀ member, member.snapshotId = id →
    (member ∈ t'.snapshotMembers ↔ member ∈ t.snapshotMembers)) (start : Nat) :
    membersFrom t' id start = membersFrom t id start := by
  apply eq_of_ordinals (membersFrom_pairwise ..) (membersFrom_pairwise ..)
  intro member
  rw [mem_membersFrom, mem_membersFrom]
  constructor
  · rintro ⟨hmem, hid, hstart⟩
    exact ⟨(h member hid).mp hmem, hid, hstart⟩
  · rintro ⟨hmem, hid, hstart⟩
    exact ⟨(h member hid).mpr hmem, hid, hstart⟩

/-- When the ordinals have no gap, reading from an ordinal skips that many members. -/
lemma membersFrom_eq_drop (h : (membersFrom t id 0).map MemberRow.ordinal = List.range count)
    (start : Nat) : membersFrom t id start = (membersFrom t id 0).drop start := by
  apply eq_of_ordinals (membersFrom_pairwise ..)
  · exact (membersFrom_pairwise t id 0).sublist (List.drop_sublist ..)
  · intro member
    have hord : ∀ i (hi : i < (membersFrom t id 0).length),
        ((membersFrom t id 0)[i]).ordinal = i := by
      intro i hi
      have hget := congrArg (fun ordinals : List Nat => ordinals[i]?) h
      have hlen : i < count := by
        have := congrArg List.length h
        simp at this
        omega
      simpa [hi, hlen] using hget
    rw [List.mem_drop_iff_getElem, mem_membersFrom]
    constructor
    · rintro ⟨hmem, hid, hstart⟩
      obtain ⟨i, hi, rfl⟩ := List.mem_iff_getElem.mp
        (mem_membersFrom.mpr ⟨hmem, hid, Nat.zero_le _⟩)
      rw [hord i hi] at hstart
      refine ⟨i - start, by omega, ?_⟩
      congr 1
      omega
    · rintro ⟨i, hi, rfl⟩
      have hmem := mem_membersFrom.mp
        (List.getElem_mem (l := membersFrom t id 0) (n := start + i) (by omega))
      refine ⟨hmem.1, hmem.2.1, ?_⟩
      rw [hord]
      exact Nat.le_add_right ..

/-! ## Views -/

/-- All the store keeps of one snapshot. -/
structure SnapshotView where
  row : Option SnapshotRow
  members : List MemberRow
deriving DecidableEq

def Tables.view (t : Tables) (id : Nonce) : SnapshotView where
  row := t.snapshots.find? id
  members := membersFrom t id 0

variable (digests : Digests) (action : Action) (id : Nonce) in
/-- What a committed action does to the view of snapshot `id`. -/
inductive SnapshotView.Moves :
    SnapshotView → SnapshotView → Prop
  | kept {view} : Moves view view
  | began {context token members} (haction : action = .run (.beginSnapshot context id token)) :
      Moves ⟨none, members⟩
        ⟨some (.begun (context.digest digests) id token), members⟩
  | advanced {builder records row members members' added}
      (haction : action = .run (.addMembers builder records)) (hheld : builder.holds row = true)
      (hadded : MemberBatch id row.memberCount added)
      (hmembers : ∀ member, member ∈ members' ↔ member ∈ members ∨ member ∈ added)
      (hcount : row.memberCount + added.length ≤ maxSnapshotMembers) :
      Moves ⟨some row, members⟩ ⟨some (row.advance added.length), members'⟩
  | completed {builder terms count digest row members sequence}
      (haction : action = .run (.sealSnapshot builder terms count digest))
      (hheld : builder.holds row = true) (hcount : row.memberCount = count) :
      Moves ⟨some row, members⟩ ⟨some (row.complete terms digest sequence), members⟩
  | retired {row : SnapshotRow} {members} : Moves ⟨some row, members⟩ ⟨some row.retire, members⟩
  /-- Members of a retired snapshot are deleted. -/
  | thinned {row : SnapshotRow} {members members'}
      (hretired : row.state = .retired) (hsub : ∀ member ∈ members', member ∈ members) :
      Moves ⟨some row, members⟩ ⟨some row, members'⟩
  /-- A retired snapshot is deleted, after its members. -/
  | removed {row : SnapshotRow} {members} (hretired : row.state = .retired) :
      Moves ⟨some row, members⟩ ⟨none, []⟩

/-! ## Statements -/

lemma Tables.view_congr (hsnaps : t'.snapshots = t.snapshots)
    (hmems : t'.snapshotMembers = t.snapshotMembers) (id : Nonce) : t'.view id = t.view id := by
  unfold view membersFrom
  rw [hsnaps, hmems]

variable {action : Action}

lemma SnapshotView.Moves.of_eq (h : t'.view id = t.view id) :
    Moves digests action id (t.view id) (t'.view id) := by
  rw [h]
  exact .kept

variable {builder : SnapshotBuilder}

lemma insertSnapshot_moves {context : CanonicalKey} {begun token : Nonce} {now : Nat}
    (h : insertSnapshot digests context begun token lease now t = .ok (t', builder)) (id : Nonce) :
    SnapshotView.Moves digests (.run (.beginSnapshot context begun token)) id
      (t.view id) (t'.view id) := by
  simp only [insertSnapshot, bind_ok_iff, Prod.exists, pure_ok_iff, Prod.mk.injEq] at h
  obtain ⟨_, _, hkeyed, snapshots, hinsert, _, -, rfl, -⟩ := h
  obtain ⟨_, rfl⟩ := putManifest_ok hkeyed
  have hins := insertRow_ok hinsert
  by_cases hid : begun = id
  · subst hid
    have hnone : t.snapshots.find? begun = none := find?_eq_none.mpr hins.fresh
    have hview : t.view begun = ⟨none, membersFrom t begun 0⟩ := by
      rw [view, hnone]
    rw [hview]
    have hself : snapshots.find? begun = some (.begun (context.digest digests) begun token) :=
      hins.find?_self
    change SnapshotView.Moves _ _ _ _ ⟨snapshots.find? begun, membersFrom t begun 0⟩
    rw [hself]
    exact .began rfl
  · have hother : snapshots.find? id = t.snapshots.find? id := hins.find?_of_ne hid
    change SnapshotView.Moves _ _ _ _ ⟨snapshots.find? id, membersFrom t id 0⟩
    rw [hother]
    exact .kept

/-- The build that a builder holds. -/
lemma heldRow_view (h : heldRow t builder = some row) :
    t.view builder.id = ⟨some row, membersFrom t builder.id 0⟩ ∧ builder.holds row = true := by
  obtain ⟨hrow, hid, -⟩ := heldRow_eq_some h
  have hfind : t.snapshots.find? builder.id = some row := find?_eq_some.mpr ⟨hrow, hid⟩
  refine ⟨?_, List.find?_some h⟩
  rw [view, hfind]

/-- A change under a builder's token and revision leaves other snapshots alone. -/
lemma find?_update_holds_of_ne (change : SnapshotRow → SnapshotRow)
    (hkey : ∀ row : SnapshotRow, Keyed.key (change row) = Keyed.key row) (hid : id ≠ builder.id) :
    (t.snapshots.update builder.holds change hkey).find? id = t.snapshots.find? id := by
  rw [find?_update]
  cases hfind : t.snapshots.find? id with
  | none => rfl
  | some row =>
    have hrow : row.snapshotId = id := (find?_eq_some.mp hfind).2
    have hholds : builder.holds row = false := by
      apply eq_false_of_ne_true
      intro hholds
      exact hid (hrow.symm.trans (SnapshotBuilder.holds_iff.mp hholds).1)
    simp [hholds]

lemma find?_update_holds (change : SnapshotRow → SnapshotRow)
    (hkey : ∀ row : SnapshotRow, Keyed.key (change row) = Keyed.key row)
    (h : heldRow t builder = some row) :
    (t.snapshots.update builder.holds change hkey).find? builder.id = some (change row) := by
  obtain ⟨hrow, hid, -⟩ := heldRow_eq_some h
  have hfind : t.snapshots.find? builder.id = some row := find?_eq_some.mpr ⟨hrow, hid⟩
  rw [find?_update, hfind]
  simp [(heldRow_view h).2]

lemma appendMembers_moves {builder builder' : SnapshotBuilder} {records : List Digest}
    (h : appendMembers builder records t = .ok (t', builder')) (id : Nonce) :
    SnapshotView.Moves digests (.run (.addMembers builder records)) id
      (t.view id) (t'.view id) := by
  obtain ⟨_, added, snapshotMembers, hheld, hcount, hbatch, hmem, rfl, -⟩ := appendMembers_ok h
  change SnapshotView.Moves _ _ _ _ ⟨(t.snapshots.update builder.holds (.advance added.length)
    fun _ => rfl).find? id, membersFrom { t with snapshotMembers } id 0⟩
  by_cases hid : id = builder.id
  · subst hid
    obtain ⟨hview, hholds⟩ := heldRow_view hheld
    rw [hview, find?_update_holds (.advance added.length) (fun _ => rfl) hheld]
    refine .advanced rfl hholds hbatch ?_ hcount
    intro member
    rw [mem_membersFrom, mem_membersFrom]
    constructor
    · rintro ⟨hmember, hid, hstart⟩
      exact ((hmem member).mp hmember).imp_left (⟨·, hid, hstart⟩)
    · rintro (⟨hold, hid, hstart⟩ | hnew)
      · exact ⟨(hmem member).mpr (.inl hold), hid, hstart⟩
      · exact ⟨(hmem member).mpr (.inr hnew), hbatch.owner member hnew, Nat.zero_le _⟩
  · have hmems : membersFrom { t with snapshotMembers } id 0 = membersFrom t id 0 := by
      apply membersFrom_congr
      intro member hmember
      rw [hmem, or_iff_left]
      intro hnew
      exact hid (hmember.symm.trans (hbatch.owner member hnew))
    rw [find?_update_holds_of_ne (.advance added.length) (fun _ => rfl) hid, hmems]
    exact .kept

lemma sealStatements_moves {terms : SnapshotSeal} {digest : Digest} {header : SnapshotHeader}
    (h : sealStatements builder terms count digest t = .ok (t', header)) (id : Nonce) :
    SnapshotView.Moves digests (.run (.sealSnapshot builder terms count digest)) id
      (t.view id) (t'.view id) := by
  obtain ⟨_, hheld, hcount, hsnaps, hmems, -⟩ := sealStatements_ok h
  let complete := SnapshotRow.complete terms digest (t.publicationSeq + 1)
  have hview' : t'.view id =
      ⟨(t.snapshots.update builder.holds complete fun _ => rfl).find? id, membersFrom t id 0⟩ := by
    unfold view membersFrom
    rw [hsnaps, hmems]
  rw [hview']
  by_cases hid : id = builder.id
  · subst hid
    obtain ⟨hview, hholds⟩ := heldRow_view hheld
    rw [hview, find?_update_holds complete (fun _ => rfl) hheld]
    exact .completed rfl hholds hcount
  · rw [find?_update_holds_of_ne complete (fun _ => rfl) hid]
    exact .kept

/-- An update that retires some snapshots. -/
lemma moves_of_retire {p : SnapshotRow → Bool}
    (hsnaps : t'.snapshots = t.snapshots.update p .retire fun _ => rfl)
    (hmems : t'.snapshotMembers = t.snapshotMembers) (id : Nonce) :
    SnapshotView.Moves digests action id (t.view id) (t'.view id) := by
  have hview : t'.view id =
      ⟨(t.snapshots.find? id).map fun row => if p row then row.retire else row,
        membersFrom t id 0⟩ := by
    unfold view membersFrom
    rw [hsnaps, hmems, find?_update t.snapshots p SnapshotRow.retire (fun _ => rfl) id]
  rw [hview, view]
  cases hfind : t.snapshots.find? id with
  | none => exact .kept
  | some row =>
    change SnapshotView.Moves _ _ _ _ ⟨some (if p row then row.retire else row), _⟩
    split
    · exact .retired
    · exact .kept

/-! ## Deletion -/

/-- Deletions leave the view, thin out a retired snapshot or remove it. -/
def SnapshotView.Collects (view view' : SnapshotView) : Prop :=
  view' = view ∨ ∃ row, view.row = some row ∧ row.state = .retired ∧
    ((view'.row = some row ∧ ∀ member ∈ view'.members, member ∈ view.members) ∨ view' = ⟨none, []⟩)

lemma SnapshotView.Collects.trans {v₁ v₂ v₃ : SnapshotView} (h₁ : v₁.Collects v₂)
    (h₂ : v₂.Collects v₃) : v₁.Collects v₃ := by
  rcases h₁ with rfl | ⟨row, hrow, hret, ⟨hkept, hsub⟩ | rfl⟩
  · exact h₂
  · rcases h₂ with rfl | ⟨other, hother, -, ⟨hotherKept, hotherSub⟩ | rfl⟩
    · exact .inr ⟨row, hrow, hret, .inl ⟨hkept, hsub⟩⟩
    · obtain rfl := Option.some.inj (hother.symm.trans hkept)
      refine .inr ⟨other, hrow, hret, .inl ⟨hotherKept, ?_⟩⟩
      exact fun member hmember => hsub member (hotherSub member hmember)
    · exact .inr ⟨row, hrow, hret, .inr rfl⟩
  · rcases h₂ with rfl | ⟨other, hother, -⟩
    · exact .inr ⟨row, hrow, hret, .inr rfl⟩
    · cases hother

lemma SnapshotView.Collects.moves {view view' : SnapshotView} (h : view.Collects view') :
    Moves digests action id view view' := by
  rcases h with rfl | ⟨_, hrow, hret, ⟨hkept, hsub⟩ | rfl⟩
  · exact .kept
  · obtain ⟨_, members⟩ := view
    obtain ⟨_, _⟩ := view'
    obtain rfl := hrow
    obtain rfl := hkept
    exact .thinned hret hsub
  · obtain ⟨_, members⟩ := view
    obtain rfl := hrow
    exact .removed hret

lemma deleteMembers_collects (scan : Scan) (left : Nat) (t : Tables) (id : Nonce) :
    (t.view id).Collects ((deleteMembers scan left t fun member =>
      isRetiredSnapshot t member.snapshotId).1.view id) := by
  have hdeleted := deleted_deleteSome t.snapshotMembers scan
    (fun member => isRetiredSnapshot t member.snapshotId) left
  cases hret : isRetiredSnapshot t id with
  | true =>
    obtain ⟨row, hrow, hmatch⟩ := any_eq_true.mp hret
    simp only [Bool.and_eq_true, decide_eq_true_eq] at hmatch
    have hfind : (t.view id).row = some row := find?_eq_some.mpr ⟨hrow, hmatch.1⟩
    refine .inr ⟨row, hfind, hmatch.2, .inl ⟨hfind, ?_⟩⟩
    intro member hmember
    obtain ⟨hmem, hid, hstart⟩ := mem_membersFrom.mp hmember
    exact mem_membersFrom.mpr ⟨hdeleted.of_new member hmem, hid, hstart⟩
  | false =>
    refine .inl ?_
    have hmems : membersFrom (deleteMembers scan left t fun member =>
        isRetiredSnapshot t member.snapshotId).1 id 0 = membersFrom t id 0 := by
      apply membersFrom_congr
      intro member hid
      refine ⟨hdeleted.of_new member, ?_⟩
      intro hmember
      rcases hdeleted.of_old member hmember with hkept | htaken
      · exact hkept
      · rw [hid, hret] at htaken
        cases htaken
    exact congrArg (SnapshotView.mk _) hmems

lemma deleteSnapshots_collects (scan : Scan) (left : Nat) (t : Tables) (id : Nonce) :
    (t.view id).Collects ((deleteSnapshots scan left t (isEmptySnapshot t)).1.view id) := by
  have hdeleted := deleted_deleteSome t.snapshots scan (isEmptySnapshot t) left
  have hview : (deleteSnapshots scan left t (isEmptySnapshot t)).1.view id =
      ⟨(t.snapshots.deleteSome scan (isEmptySnapshot t) left).1.find? id, membersFrom t id 0⟩ := rfl
  rw [hview]
  cases hfind : t.snapshots.find? id with
  | none =>
    refine .inl ?_
    rw [view, hfind, find?_eq_none.mpr]
    intro row hrow
    exact find?_eq_none.mp hfind row (hdeleted.of_new row hrow)
  | some row =>
    obtain ⟨hrow, hid⟩ := find?_eq_some.mp hfind
    rcases hdeleted.of_old row hrow with hkept | htaken
    · refine .inl ?_
      rw [view, hfind, find?_eq_some.mpr ⟨hkept, hid⟩]
    · simp only [isEmptySnapshot, Bool.and_eq_true, decide_eq_true_eq, Bool.not_eq_true',
        any_eq_false, decide_eq_false_iff_not] at htaken
      obtain ⟨⟨hret, hempty⟩, -⟩ := htaken
      refine .inr ⟨row, hfind, hret, ?_⟩
      have hmems : membersFrom t id 0 = [] := by
        apply List.eq_nil_iff_forall_not_mem.mpr
        intro member hmember
        obtain ⟨hmem, hmemberId, -⟩ := mem_membersFrom.mp hmember
        exact hempty member hmem (hmemberId.trans hid.symm)
      rw [hmems]
      cases hnew : (t.snapshots.deleteSome scan (isEmptySnapshot t) left).1.find? id with
      | none => exact .inr rfl
      | some other =>
        obtain ⟨hother, hotherId⟩ := find?_eq_some.mp hnew
        have hsame := eq_of_key (hdeleted.of_new other hother) hrow (hotherId.trans hid.symm)
        exact .inl ⟨congrArg some hsame, by simp⟩

lemma deleteSteps_collects (step : DeleteStep) (hstep : step ∈ deleteSteps) (scan : Scan)
    (left : Nat) (t : Tables) (id : Nonce) :
    (t.view id).Collects ((step scan left t).1.view id) := by
  simp only [deleteSteps, List.mem_cons, List.not_mem_nil, or_false] at hstep
  rcases hstep with rfl | rfl | rfl | rfl | rfl | rfl | rfl | rfl | rfl | rfl
  case inr.inl => exact deleteMembers_collects scan left t id
  case inr.inr.inl => exact deleteSnapshots_collects scan left t id
  all_goals exact .inl rfl

/-- A reclaim that does not find this scope among the retired ones. -/
lemma reclaim_collects {scopes : RetiredScopes} (hscope : scopes.listed = false)
    (scans : Bool → Nat → Scan) (live : Bool) (spared budget : Nat) (t : Tables) (id : Nonce) :
    (t.view id).Collects ((reclaimLive (scans false) live spared
      (reclaimScope (scans true) scopes budget t).1).1.view id) := by
  have hspared : (reclaimScope (scans true) scopes budget t).1 = t := by
    simp [reclaimScope, hscope]
  rw [hspared]
  unfold reclaimLive
  split
  · exact runDeletes_rel (R := fun t t' => (t.view id).Collects (t'.view id))
      (fun _ => .inl rfl) (fun _ _ _ => SnapshotView.Collects.trans)
      (fun step hstep scan left t => deleteSteps_collects step hstep scan left t id) spared t
  · exact .inl rfl

/-! ## Steps -/

lemma renewIfDue_view (txn : Txn) (lease : ProcessLease) (t : Tables) (id : Nonce) :
    (renewIfDue txn lease t).1.view id = t.view id := by
  unfold renewIfDue
  split <;> rfl

/-- No reclaim of the step takes this scope for a retired one. -/
def Step.sparesScope (step : Step) : Bool :=
  match step.action with
  | .run (.reclaim _ _ scopes) => !scopes.listed
  | _ => true

lemma Op.run_moves {op : Op} {txn : Txn} {lease' : ProcessLease} {reply : Reply}
    (hscope : ∀ scans maxRows scopes, op = .reclaim scans maxRows scopes → scopes.listed = false)
    (h : op.run digests txn lease t = (lease', .ok (t', reply))) (id : Nonce) :
    SnapshotView.Moves digests (.run op) id (t.view id) (t'.view id) := by
  cases hcont : op.isContent with
  | true =>
    obtain ⟨hsnaps, hmems⟩ := (Op.content_change hcont h).snapshots_eq
    exact .of_eq (view_congr hsnaps hmems id)
  | false =>
    cases hwrite : op.isWrite with
    | true =>
      obtain ⟨_, _, hwrites, h⟩ := run_write_ok hwrite h
      rw [← renewIfDue_view txn lease t]
      cases hwrites with
      | beginSnapshot => exact insertSnapshot_moves (write_ok h).2 id
      | addMembers => exact appendMembers_moves (write_ok h).2 id
      | sealSnapshot => exact sealStatements_moves (write_ok h).2 id
      | _ => cases hcont
    | false =>
      cases run_commits digests hwrite h with
      | unchanged => exact .kept
      | retireBuild | retireSnapshot => exact moves_of_retire (by rfl) (by rfl) id
      | retireMemberRecord => exact .kept
      | @retireStep step =>
        cases step with
        | abandonedBuilds | unusedSnapshots => exact moves_of_retire (by rfl) (by rfl) id
        | _ => exact .kept
      | reclaim => exact (reclaim_collects (hscope _ _ _ rfl) ..).moves
      | _ => cases hcont

/-- What a step does to the view of a snapshot. -/
lemma World.StepsTo.moves {world world' : World} {step : Step}
    (h : world.StepsTo digests step world') (hscope : step.sparesScope = true) (id : Nonce) :
    SnapshotView.Moves digests step.action id (world.tables.view id) (world'.tables.view id) := by
  cases h with
  | idle => exact .kept
  | opened _ _ hopen =>
    obtain ⟨-, rfl⟩ := openLease_ok hopen
    exact .kept
  | dropped _ _ htables =>
    rcases htables with rfl | hrel
    · exact .kept
    · obtain ⟨hsnaps, hmems⟩ := (release_change hrel).snapshots_eq
      exact .of_eq (view_congr hsnaps hmems id)
  | failed => exact .kept
  | committed haction _ hrun =>
    rw [haction]
    refine Op.run_moves ?_ hrun id
    rintro _ _ _ rfl
    simpa [Step.sparesScope, haction] using hscope

end Lint4d.Store
