import Lint4d.Store.Reachability
import Lint4d.Store.SnapshotReaders

/-!
# Sealing is linearizable

What the clients of a store hold stays true of it over every run: builders are
not ahead of their builds, seals have hashed what is there, headers describe
snapshots that were sealed.  From that follow the four properties of sealing:
one commit for each revision of a build, sealed digests that are the digests of
the members, members that do not change while a snapshot is sealed, and readers
that verify what was found.
-/

namespace Lint4d.Store

open List hiding getElem?_eq_some_iff
open Lint4d.Lib Lint4d.Cache Lint4d.Facts SnapshotBuilder
open Clients hiding gain step

variable {digests : Digests} {t t' : Tables} {id : Nonce}
  {reply : Reply} {op : Op} {txn : Txn} {lease lease' : ProcessLease}
  {revision index batches : Nat}

/-! ## What calls return -/

lemma World.reply_eq_some {world : World} {step : Step}
    (h : world.reply digests step = some reply) :
    ∃ op lease lease', step.action = .run op ∧ op.run digests step.txn lease world.tables =
        (lease', .ok ((world.step digests step).tables, reply)) := by
  unfold World.reply at h
  split at h
  · rename_i op lease haction hlease
    split at h
    · rename_i tables found hrun
      obtain rfl := Option.some.inj h
      have hop : op.run digests step.txn lease world.tables =
          ((op.run digests step.txn lease world.tables).1, .ok (tables, found)) :=
        Prod.ext rfl hrun
      refine ⟨op, lease, (op.run digests step.txn lease world.tables).1, haction, ?_⟩
      rw [World.step_committed digests haction hlease hop]
      exact hop
    · cases h
  · cases h

variable {builder : SnapshotBuilder}

/-- A committed batch or seal: the build was held at the builder's revision, and is
past it. -/
lemma Op.run_revision {step : Step} (haction : step.action = .run op)
    (hrev : step.revision = some (id, revision))
    (h : op.run digests txn lease t = (lease', .ok (t', reply))) :
    ∃ row row',
      (∃ builder : SnapshotBuilder, builder.revision = revision ∧ builder.holds row = true) ∧
      (t.view id).row = some row ∧ (t'.view id).row = some row' ∧
      (revision < row'.buildRevision ∨ row'.state ≠ .building) := by
  unfold Step.revision at hrev
  rw [haction] at hrev
  split at hrev
  · rename_i builder records hop
    cases hop
    cases hrev
    obtain ⟨_, h, -⟩ := keepBoth_ok h
    unfold Store.addMembers at h
    split at h
    · cases h
    · obtain ⟨row, added, _, hheld, -, -, -, rfl, -⟩ :=
        appendMembers_ok (write_ok h).2
      obtain ⟨hview, hholds⟩ := heldRow_view hheld
      rw [renewIfDue_view] at hview
      refine ⟨row, row.advance added.length, ⟨builder, rfl, hholds⟩, by rw [hview], ?_, .inl ?_⟩
      · exact find?_update_holds (.advance added.length) (fun _ => rfl) hheld
      · rw [← (holds_iff.mp hholds).2.2.1]
        exact Nat.lt_succ_self _
  · rename_i builder terms count digest hop
    cases hop
    cases hrev
    obtain ⟨_, h, -⟩ := keepBoth_ok h
    obtain ⟨row, hheld, -, hsnaps, -⟩ := sealStatements_ok (write_ok h).2
    obtain ⟨hview, hholds⟩ := heldRow_view hheld
    rw [renewIfDue_view] at hview
    let complete := SnapshotRow.complete terms digest ((renewIfDue txn lease t).1.publicationSeq + 1)
    refine ⟨row, complete row, ⟨builder, rfl, hholds⟩, by rw [hview], ?_, .inr nofun⟩
    change t'.snapshots.find? builder.id = _
    rw [hsnaps]
    exact find?_update_holds complete (fun _ => rfl) hheld
  · cases hrev

lemma insertSnapshot_ok {ctx : CanonicalKey} {begun token : Nonce} {now : Nat}
    (h : insertSnapshot digests ctx begun token lease now t = .ok (t', builder)) :
    (t'.view begun).row = some (.begun (ctx.digest digests) begun token) ∧
      builder = { id := begun, token, revision := 0, context := ctx.digest digests } := by
  simp only [insertSnapshot, bind_ok_iff, Prod.exists, pure_ok_iff, Prod.mk.injEq] at h
  obtain ⟨_, _, -, _, hins, _, -, rfl, rfl⟩ := h
  exact ⟨(insertRow_ok hins).find?_self, rfl⟩

/-- A builder that a call returns is of the build's context and at its revision. -/
lemma Op.run_issued {issued : SnapshotBuilder}
    (h : op.run digests txn lease t = (lease', .ok (t', reply)))
    (hissued : reply.issued = some issued) :
    ((Action.run op).Begins issued.id ∧ issued.Sound (t'.view issued.id)) ∨
      ∃ builder, op.builder = some builder ∧ builder.id = issued.id ∧
        (builder.Sound (t.view builder.id) → issued.Sound (t'.view issued.id)) := by
  cases op with
  | beginSnapshot ctx _ token =>
    obtain ⟨_, hrun, rfl⟩ := keepBoth_ok h
    obtain rfl := Option.some.inj hissued
    unfold Store.beginSnapshot at hrun
    split at hrun
    · cases hrun
    · obtain ⟨hrow, rfl⟩ := insertSnapshot_ok (write_ok hrun).2
      refine .inl ⟨⟨ctx, token, rfl⟩, ?_⟩
      intro row hother
      obtain rfl := Option.some.inj (hrow.symm.trans hother)
      exact ⟨rfl, le_rfl⟩
  | addMembers builder =>
    obtain ⟨_, hrun, rfl⟩ := keepBoth_ok h
    obtain rfl := Option.some.inj hissued
    unfold Store.addMembers at hrun
    split at hrun
    · cases hrun
    · obtain ⟨row, added, _, hheld, -, -, -, rfl, rfl⟩ :=
        appendMembers_ok (write_ok hrun).2
      obtain ⟨hview, hholds⟩ := heldRow_view hheld
      rw [renewIfDue_view] at hview
      refine .inr ⟨builder, rfl, rfl, ?_⟩
      intro hbuilder other hother
      have hrow := find?_update_holds (.advance added.length) (fun _ => rfl) hheld
      obtain rfl := Option.some.inj (hrow.symm.trans hother)
      refine ⟨(hbuilder row (by rw [hview])).1, ?_⟩
      change builder.revision + 1 ≤ row.buildRevision + 1
      rw [(holds_iff.mp hholds).2.2.1]
  | sealSnapshot builder =>
    obtain ⟨_, -, rfl⟩ := keepBoth_ok h
    cases hissued
  | publishKey | publishArtifact | publishFacts | publishFactsWithEvidence | publishEvidence
  | publishMemberRecord | renewLease =>
    obtain ⟨_, -, rfl⟩ := keepBoth_ok h
    cases hissued
  | _ =>
    obtain ⟨_, -, rfl⟩ := keep_ok (Prod.mk.inj h).2
    cases hissued

/-! ## Sound clients -/

/-- The snapshot that a step begins. -/
def Step.begun (step : Step) : Option Nonce :=
  match step.action with
  | .run (.beginSnapshot _ id _) => some id
  | _ => none

lemma Step.begun_of_begins {step : Step} (h : step.action.Begins id) : step.begun = some id := by
  obtain ⟨_, _, haction⟩ := h
  rw [Step.begun, haction]

def Event.begun : Event → Option Nonce
  | act step => step.begun
  | _ => none

/-- No reclaim of the event takes this scope for a retired one. -/
def Event.sparesScope : Event → Bool
  | act step => step.sparesScope
  | _ => true

def Clients.view (clients : Clients) (id : Nonce) : SnapshotView := clients.world.tables.view id

/-- What the clients hold is true of the store; `begun` lists the snapshots that were
begun. -/
structure Clients.Sound (digests : Digests) (clients : Clients) (begun : List Nonce) : Prop where
  views : ∀ id, (clients.view id).Sound digests
  rows : ∀ id row, (clients.view id).row = some row → id ∈ begun
  builders : ∀ builder ∈ clients.builders,
    builder.id ∈ begun ∧ builder.Sound (clients.view builder.id)
  seals : ∀ call ∈ clients.seals,
    call.builder ∈ clients.builders ∧ call.Sound (clients.view call.builder.id)
  headers : ∀ header ∈ clients.headers, header.id ∈ begun ∧ header.Sound (clients.view header.id)
  readers : ∀ reader ∈ clients.readers,
    reader.header ∈ clients.headers ∧ reader.Sound (clients.view reader.header.id)

variable {clients : Clients} {begun : List Nonce}

lemma Clients.Sound.mono (h : clients.Sound digests begun) (later : List Nonce) :
    clients.Sound digests (begun ++ later) where
  views := h.views
  rows id row hrow := mem_append_left _ (h.rows id row hrow)
  builders builder hbuilder := (h.builders builder hbuilder).imp_left (mem_append_left _)
  seals := h.seals
  headers header hheader := (h.headers header hheader).imp_left (mem_append_left _)
  readers := h.readers

variable {event : Event}

/-- Where a step of the store comes from. -/
lemma Clients.storeStep_cases {step : Step} (h : clients.storeStep digests event = some step) :
    (event = .act step ∧ clients.offers step = true) ∨
    ∃ call ∈ clients.seals, ∃ process txn digest, event = .commitSeal call process txn ∧
      call.stream.digest digests = .ok digest ∧ step.action =
        .run (.sealSnapshot call.builder call.terms call.stream.count digest) := by
  cases event with
  | act =>
    simp only [storeStep, Option.ite_none_right_eq_some, Option.some.injEq] at h
    obtain ⟨hoffers, rfl⟩ := h
    exact .inl ⟨rfl, hoffers⟩
  | commitSeal call process txn =>
    simp only [storeStep, Option.ite_none_right_eq_some] at h
    obtain ⟨hcall, h⟩ := h
    split at h
    · rename_i digest hdig
      obtain rfl := Option.some.inj h
      exact .inr ⟨call, hcall, process, txn, digest, rfl, hdig, rfl⟩
    · cases h
  | _ => cases h

/-- A seal commits the digest that its call has streamed. -/
lemma Clients.storeStep_sealSnapshot {step : Step} {terms : SnapshotSeal} {count : Nat}
    {digest : Digest} (h : clients.storeStep digests event = some step)
    (haction : step.action = .run (.sealSnapshot builder terms count digest)) :
    ∃ call ∈ clients.seals, call.builder = builder ∧ call.terms = terms ∧
      call.stream.digest digests = .ok digest := by
  rcases storeStep_cases h with ⟨-, hoffers⟩ | ⟨call, hcall, _, _, _, -, hdig, haction'⟩
  · simp [offers, haction] at hoffers
  · cases haction.symm.trans haction'
    exact ⟨call, hcall, rfl, rfl, hdig⟩

/-- Only a step that a client asks for begins a snapshot or reclaims. -/
lemma Clients.storeStep_event {step : Step} (h : clients.storeStep digests event = some step) :
    step.begun = event.begun ∧ (event.sparesScope = true → step.sparesScope = true) := by
  rcases storeStep_cases h with ⟨rfl, -⟩ | ⟨_, -, _, _, _, rfl, -, haction⟩
  · exact ⟨rfl, id⟩
  · exact ⟨by rw [Step.begun, haction]; rfl, fun _ => by rw [Step.sparesScope, haction]⟩

/-- The builder of a step is one that a client holds. -/
lemma Clients.storeStep_builder {step : Step} (hsound : clients.Sound digests begun)
    (h : clients.storeStep digests event = some step) (haction : step.action = .run op)
    (hbuilder : op.builder = some builder) : builder ∈ clients.builders := by
  rcases storeStep_cases h with ⟨-, hoffers⟩ | ⟨call, hcall, _, _, _, -, -, haction'⟩
  · unfold offers at hoffers
    rw [haction] at hoffers
    split at hoffers
    · cases hoffers
    · rename_i found _ hfound
      cases hfound
      simpa [hbuilder] using hoffers
    · rename_i hnone
      exact absurd rfl (hnone op)
  · cases haction.symm.trans haction'
    cases hbuilder
    exact (hsound.seals call hcall).1

lemma Clients.Sound.afterStep {step : Step} (h : clients.Sound digests begun)
    (hstep : clients.storeStep digests event = some step)
    (hfresh : ∀ id, event.begun = some id → ¬ id ∈ begun) (hscope : event.sparesScope = true) :
    (clients.afterStep digests step).Sound digests (begun ++ event.begun.toList) := by
  obtain ⟨hbegun, hspares⟩ := storeStep_event hstep
  have hmoves : ∀ id, SnapshotView.Moves digests step.action id (clients.view id)
      ((clients.afterStep digests step).view id) := fun id =>
    (clients.world.stepsTo_step digests step).moves (hspares hscope) id
  have hold : ∀ id ∈ begun, ¬ step.action.Begins id := by
    intro id hid hbegins
    exact hfresh id (hbegun ▸ Step.begun_of_begins hbegins) hid
  refine ⟨?_, ?_, ?_, ?_, ?_, ?_⟩
  · -- a seal that commits has streamed the members that are there
    intro id
    refine (hmoves id).sound (h.views id) (membersFrom_pairwise ..) ?_
    intro builder terms count digest haction row hrow hholds
    obtain ⟨call, hcall, rfl, rfl, hdig⟩ := storeStep_sealSnapshot hstep haction
    obtain ⟨hid, -, -, hbuild⟩ := holds_iff.mp hholds
    obtain rfl : call.builder.id = id := hid.symm.trans (Table.find?_eq_some.mp hrow).2
    have hactive : row.isActive = true := SnapshotRow.isActive_iff.mpr (by simp [hbuild])
    obtain ⟨hbuilder, hsound⟩ := h.seals call hcall
    rw [(hsound row hrow hholds).digest ((h.views _).length_eq hrow hactive) hdig,
      ((h.builders _ hbuilder).2 row hrow).1]
  · intro id row hrow
    by_cases hbegins : step.action.Begins id
    · apply mem_append_right
      simp [← hbegun, Step.begun_of_begins hbegins]
    · obtain ⟨old, hrowOld, -⟩ := (hmoves id).exists_old hbegins hrow
      exact mem_append_left _ (h.rows id old hrowOld)
  · intro builder hbuilder
    rcases mem_append.mp hbuilder with hheld | hissued
    · obtain ⟨hid, hsound⟩ := h.builders builder hheld
      exact ⟨mem_append_left _ hid, (hmoves _).builder (hold _ hid) hsound⟩
    · -- a token the step hands out: a new one, or a builder given back
      obtain ⟨_, hreply, hissued⟩ :=
        Option.bind_eq_some_iff.mp (Option.mem_toList.mp hissued)
      obtain ⟨_, _, _, haction, hrun⟩ := World.reply_eq_some hreply
      rcases Op.run_issued hrun hissued with ⟨hbegins, hsound⟩ | ⟨old, hold', hid, hsound⟩
      · refine ⟨mem_append_right _ ?_, hsound⟩
        rw [← haction] at hbegins
        simp [← hbegun, Step.begun_of_begins hbegins]
      · obtain ⟨hidOld, hsoundOld⟩ := h.builders old (storeStep_builder h hstep haction hold')
        exact ⟨mem_append_left _ (hid ▸ hidOld), hsound hsoundOld⟩
  · intro call hcall
    obtain ⟨hbuilder, hsound⟩ := h.seals call hcall
    obtain ⟨hid, hbuilderSound⟩ := h.builders _ hbuilder
    exact ⟨mem_append_left _ hbuilder, (hmoves _).seal (hold _ hid) hbuilderSound hsound⟩
  · intro header hheader
    obtain ⟨hid, hsound⟩ := h.headers header hheader
    exact ⟨mem_append_left _ hid, (hmoves _).header (hold _ hid) hsound⟩
  · intro reader hrdr
    obtain ⟨hheader, hsound⟩ := h.readers reader hrdr
    obtain ⟨hid, hheaderSound⟩ := h.headers _ hheader
    exact ⟨hheader, (hmoves _).reader (hold _ hid) hheaderSound hsound⟩

lemma of_mem_modify {α : Type} {items : List α} {f : α → α} {item : α}
    (h : item ∈ items.modify index f) : item ∈ items ∨ ∃ old ∈ items, item = f old := by
  obtain ⟨i, hi, rfl⟩ := mem_iff_getElem.mp h
  rw [length_modify] at hi
  rw [getElem_modify]
  split
  · exact .inr ⟨_, getElem_mem hi, rfl⟩
  · exact .inl (getElem_mem hi)

/-- What clients gain without a write is true of the store. -/
lemma Clients.Sound.gain (h : clients.Sound digests begun) (event : Event) :
    (clients.gain digests event).Sound digests begun := by
  cases event with
  | act | commitSeal => exact h
  | startSeal builder terms =>
    unfold Clients.gain
    dsimp only
    split
    · rename_i hbuilder
      refine { h with seals := forall_mem_append.2 ⟨h.seals, ?_⟩ }
      exact forall_mem_singleton.2 ⟨hbuilder, SealCall.sound_new _ builder terms⟩
    · exact h
  | streamBatch call txn =>
    unfold Clients.gain
    dsimp only
    split
    · rename_i hcall
      obtain ⟨hbuilder, hsound⟩ := h.seals call hcall.1
      split
      · rename_i stream hstream
        refine { h with seals := forall_mem_append.2 ⟨h.seals, ?_⟩ }
        exact forall_mem_singleton.2 ⟨hbuilder, streamBatch_follows hstream (h.views _) hsound⟩
      · exact h
    · exact h
  | findSnapshots _ txn =>
    unfold Clients.gain
    dsimp only
    split
    · rename_i headers hfound
      refine ⟨h.views, h.rows, h.builders, h.seals, forall_mem_append.2 ⟨h.headers, ?_⟩, ?_⟩
      · intro header hnew
        obtain ⟨row, hrow, hstate, hdesc⟩ := findSnapshots_ok hfound hnew
        refine ⟨h.rows _ row hrow, ?_⟩
        intro other hother
        obtain rfl := Option.some.inj (hrow.symm.trans hother)
        exact ⟨by simp [hstate], fun _ => hdesc⟩
      · intro reader hrdr
        exact (h.readers reader hrdr).imp_left (mem_append_left _)
    · exact h
  | readSnapshot header =>
    unfold Clients.gain
    dsimp only
    split
    · rename_i hheader
      refine { h with readers := forall_mem_append.2 ⟨h.readers, ?_⟩ }
      exact forall_mem_singleton.2 ⟨hheader, SnapshotReader.sound_new _ header⟩
    · exact h
  | nextBatch _ txn =>
    refine { h with readers := fun reader hrdr => ?_ }
    rcases of_mem_modify hrdr with hheld | ⟨old, hheld, rfl⟩
    · exact h.readers reader hheld
    · obtain ⟨hheader, hsound⟩ := h.readers old hheld
      obtain ⟨-, hheaderSound⟩ := h.headers _ hheader
      exact ⟨hheader, hsound.nextBatch (h.views _) hheaderSound txn⟩

lemma Clients.Sound.step (h : clients.Sound digests begun)
    (hfresh : ∀ id, event.begun = some id → ¬ id ∈ begun) (hscope : event.sparesScope = true) :
    (clients.step digests event).Sound digests (begun ++ event.begun.toList) := by
  unfold Clients.step
  split
  · rename_i step hstep
    exact h.afterStep hstep hfresh hscope
  · exact (h.gain event).mono _

lemma Clients.sound_initial (digests : Digests) (seq : Nat) : (initial seq).Sound digests [] where
  views id := by
    refine ⟨fun _ => rfl, ?_, ?_, ?_⟩
    · intro row hrow
      cases hrow
    · intro member hmember
      cases hmember
    · intro row hrow
      cases hrow
  rows id row hrow := by cases hrow
  builders _ hbuilder := by cases hbuilder
  seals _ hcall := by cases hcall
  headers _ hheader := by cases hheader
  readers _ hrdr := by cases hrdr

/-- The snapshots that a run begins. -/
def begunSnapshots (events : List Event) : List Nonce := events.filterMap Event.begun

variable {events : List Event}

/-! ## One commit for each revision -/

/-- The build is past the revision: no batch and no seal commits at it any more. -/
def SnapshotView.Passed (view : SnapshotView) (revision : Nat) : Prop :=
  ∀ row, view.row = some row → revision < row.buildRevision ∨ row.state ≠ .building

lemma SnapshotView.Moves.passed {action : Action} {view view' : SnapshotView}
    (h : Moves digests action id view view') (hold : ¬ action.Begins id)
    (hpassed : view.Passed revision) : view'.Passed revision := by
  intro row hrow
  obtain ⟨old, hrowOld, -, hrev, hstate⟩ := h.exists_old hold hrow
  exact (hpassed old hrowOld).imp (fun hlt => hlt.trans_le hrev) (mt hstate)

/-- An event that commits at a revision finds the build there and leaves it past it. -/
lemma Clients.Sound.committed (h : clients.Sound digests begun)
    (hcommit : clients.committed digests event = some (id, revision)) :
    id ∈ begun ∧ ¬ (clients.view id).Passed revision ∧
      ((clients.step digests event).view id).Passed revision := by
  obtain ⟨step, hstep, hcommit⟩ := Option.bind_eq_some_iff.mp hcommit
  obtain ⟨hreply, hrev⟩ := Option.ite_none_right_eq_some.mp hcommit
  obtain ⟨_, hreply⟩ := Option.isSome_iff_exists.mp hreply
  obtain ⟨_, _, _, haction, hrun⟩ := World.reply_eq_some hreply
  obtain ⟨row, _, ⟨_, rfl, hholds⟩, hrow, hrow', hpast⟩ :=
    Op.run_revision haction hrev hrun
  refine ⟨h.rows id row hrow, ?_, ?_⟩
  · intro hpassed
    obtain ⟨-, -, hsame, hbuild⟩ := holds_iff.mp hholds
    rcases hpassed row hrow with hlt | hstate
    · omega
    · exact hstate hbuild
  · intro other hother
    unfold Clients.step at hother
    rw [hstep] at hother
    obtain rfl := Option.some.inj (hrow'.symm.trans hother)
    exact hpast

lemma begunSnapshots_cons (event : Event) (events : List Event) :
    begunSnapshots (event :: events) = event.begun.toList ++ begunSnapshots events := by
  unfold begunSnapshots
  cases hbegun : event.begun <;> simp [hbegun]

/-- A fresh snapshot is not among those begun before. -/
lemma not_mem_of_begun (hfresh : (begun ++ begunSnapshots (event :: events)).Nodup) (id : Nonce)
    (hbegun : event.begun = some id) : ¬ id ∈ begun := by
  intro hmem
  rw [begunSnapshots_cons, hbegun] at hfresh
  exact (nodup_append.mp hfresh).2.2 id hmem id (by simp) rfl

/-- The clients are sound before a run that begins fresh snapshots and spares the scope. -/
structure Clients.Ready (digests : Digests) (clients : Clients) (begun : List Nonce)
    (events : List Event) : Prop where
  sound : clients.Sound digests begun
  fresh : (begun ++ begunSnapshots events).Nodup
  scope : ∀ event ∈ events, event.sparesScope = true

lemma Clients.Ready.next (h : clients.Ready digests begun (event :: events)) :
    (clients.step digests event).Ready digests (begun ++ event.begun.toList) events where
  sound := h.sound.step (not_mem_of_begun h.fresh) (h.scope event (mem_cons_self ..))
  fresh := by rw [append_assoc, ← begunSnapshots_cons]; exact h.fresh
  scope other hother := h.scope other (mem_cons_of_mem event hother)

lemma Clients.Ready.run {later : List Event} (h : clients.Ready digests begun (events ++ later)) :
    (clients.run digests events).Ready digests (begun ++ begunSnapshots events) later := by
  induction events generalizing clients begun with
  | nil => rwa [begunSnapshots, filterMap_nil, append_nil]
  | cons _ events ih =>
    rw [begunSnapshots_cons, ← append_assoc]
    exact ih h.next

lemma Clients.Ready.moves (h : clients.Ready digests begun (event :: events)) (hid : id ∈ begun) :
    ∃ action : Action, ¬ action.Begins id ∧ SnapshotView.Moves digests action id (clients.view id)
      ((clients.step digests event).view id) := by
  unfold Clients.step
  split
  · rename_i step hstep
    obtain ⟨hbegun, hspares⟩ := storeStep_event hstep
    refine ⟨step.action, ?_, (clients.world.stepsTo_step digests step).moves
      (hspares (h.scope event (mem_cons_self ..))) id⟩
    intro hbegins
    exact not_mem_of_begun h.fresh id (hbegun ▸ Step.begun_of_begins hbegins) hid
  · -- nothing but a step of the store changes the tables
    refine ⟨.dropStore, ?_, ?_⟩
    · rintro ⟨_, _, haction⟩
      cases haction
    · rw [view, view, gain_world]
      exact .kept

/-- Past a revision, a run commits nothing at it. -/
lemma Clients.Ready.not_mem_commitLog (h : clients.Ready digests begun events) (hid : id ∈ begun)
    (hpassed : (clients.view id).Passed revision) :
    ¬ (id, revision) ∈ clients.commitLog digests events := by
  induction events generalizing clients begun with
  | nil => exact not_mem_nil
  | cons _ events ih =>
    intro hmem
    rcases mem_append.mp hmem with hnow | hlater
    · exact (h.sound.committed (Option.mem_toList.mp hnow)).2.1 hpassed
    · obtain ⟨_, hold, hmoves⟩ := h.moves hid
      exact ih h.next (mem_append_left _ hid) (hmoves.passed hold hpassed) hlater

/-- A run commits at most once at each revision of a build. -/
lemma Clients.Ready.nodup_commitLog (h : clients.Ready digests begun events) :
    (clients.commitLog digests events).Nodup := by
  induction events generalizing clients begun with
  | nil => exact nodup_nil
  | cons event events ih =>
    have hlater := ih h.next
    rw [commitLog]
    cases hcommit : clients.committed digests event with
    | none => exact hlater
    | some pair =>
      obtain ⟨hid, -, hpassed⟩ := h.sound.committed hcommit
      exact nodup_cons.mpr ⟨h.next.not_mem_commitLog (mem_append_left _ hid) hpassed, hlater⟩

/-! ## Sealed members do not change -/

/-- A snapshot that was sealed is as it was or retired after every run. -/
lemma Clients.Ready.run_kept_or_retired (h : clients.Ready digests begun events)
    (hid : id ∈ begun) (hbuilt : ∀ row, (clients.view id).row = some row → row.state ≠ .building) :
    (clients.run digests events).view id = clients.view id ∨
      ∀ row, ((clients.run digests events).view id).row = some row → row.state = .retired := by
  induction events generalizing clients begun with
  | nil => exact .inl rfl
  | cons _ events ih =>
    obtain ⟨_, hold, hmoves⟩ := h.moves hid
    have hrun := ih h.next (mem_append_left _ hid)
    rcases hmoves.kept_or_retired hold hbuilt with hkept | hret
    · rw [← hkept] at hbuilt ⊢
      exact hrun hbuilt
    · rcases hrun fun row hrow => by simp [hret row hrow] with hkept | hlater
      · refine .inr ?_
        intro row hrow
        exact hret row (hkept ▸ hrow)
      · exact .inr hlater

/-! ## Readers verify -/

/-- The event is an admitted batch of the reader at `index`. -/
def Event.isBatch (index : Nat) : Event → Bool
  | nextBatch i txn => i = index && txn.admitted
  | _ => false

/-- Every event of a run meets a condition on itself and the state before it. -/
def Clients.Along (digests : Digests) (P : Clients → Event → Prop) : Clients → List Event → Prop
  | _, [] => True
  | clients, event :: events =>
    P clients event ∧ Along digests P (clients.step digests event) events

instance Clients.decidableAlong (digests : Digests) (P : Clients → Event → Prop)
    [∀ clients event, Decidable (P clients event)] :
    (clients : Clients) → (events : List Event) → Decidable (clients.Along digests P events)
  | _, [] => inferInstanceAs (Decidable True)
  | clients, event :: events =>
    have := decidableAlong digests P (clients.step digests event) events
    inferInstanceAs (Decidable (P clients event ∧ _))

/-- The reader has verified the snapshot, or each of its `batches` batches has taken a
member. -/
def Clients.Reads (clients : Clients) (index : Nat) (header : SnapshotHeader) (batches : Nat) :
    Prop :=
  ∃ reader, clients.readers[index]? = some reader ∧ reader.header = header ∧
    (reader.reader.state = .verified ∨ (reader.reader.state = .reading ∧
      batches ≤ reader.reader.nextOrdinal ∧ batches ≤ header.memberCount))

lemma RowSource.nextBatch_of_not_admitted {σ ρ ι : Type} (manifest : RowSource σ ρ ι)
    {txn : ReadTxn} (h : txn.admitted = false) (reader : ManifestReader σ) (t : Tables) :
    (manifest.nextBatch txn.undisturbed reader t).1 = reader := by
  unfold nextBatch
  split
  · rfl
  · rfl
  · rfl
  · split
    · rfl
    · rename_i hok
      rw [ReadTxn.toReadTxn_undisturbed] at hok
      rw [ReadTxn.admitted_iff.mpr hok] at h
      cases h

/-- An event that is not a batch of the reader leaves it alone. -/
lemma Clients.step_readers {reader : SnapshotReader} (hbatch : event.isBatch index = false)
    (hrdr : clients.readers[index]? = some reader) :
    (clients.step digests event).readers[index]? = some reader := by
  have hlt := (getElem?_eq_some_iff.mp hrdr).1
  unfold Clients.step
  split
  · exact hrdr
  · cases event with
    | streamBatch _ txn =>
      simp only [gain]
      split
      · split <;> exact hrdr
      · exact hrdr
    | startSeal | findSnapshots =>
      simp only [gain]
      split <;> exact hrdr
    | readSnapshot header =>
      simp only [gain]
      split
      · rw [getElem?_append_left hlt]
        exact hrdr
      · exact hrdr
    | nextBatch i txn =>
      simp only [gain]
      rw [getElem?_modify, hrdr]
      by_cases hi : i = index
      · have hadm : txn.admitted = false := by
          simpa [Event.isBatch, hi] using hbatch
        have hsame := RowSource.nextBatch_of_not_admitted (memberSource digests reader.header.id)
          hadm reader.reader clients.world.tables
        simp [hi, SnapshotReader.nextBatch, hsame]
      · simp [hi]
    | _ => exact hrdr

/-- A batch of a readable snapshot takes a member or verifies. -/
lemma Clients.Sound.reads_step {header : SnapshotHeader} (h : clients.Sound digests begun)
    (hreads : clients.Reads index header batches)
    (hreadable : event.isBatch index = true → clients.world.tables.Readable header.id) :
    (clients.step digests event).Reads index header
      (batches + if event.isBatch index then 1 else 0) := by
  obtain ⟨reader, hrdr, rfl, hstate⟩ := hreads
  cases hbatch : event.isBatch index with
  | false => exact ⟨reader, step_readers hbatch hrdr, rfl, hstate⟩
  | true =>
    have hopen := hreadable hbatch
    cases event with
    | nextBatch i txn =>
      simp only [Event.isBatch, Bool.and_eq_true, decide_eq_true_eq] at hbatch
      obtain ⟨rfl, hadm⟩ := hbatch
      have hnext : (clients.step digests (.nextBatch i txn)).readers[i]? =
          some (reader.nextBatch digests txn clients.world.tables) := by
        change (clients.readers.modify i _)[i]? = _
        rw [getElem?_modify, hrdr]
        simp
      refine ⟨_, hnext, rfl, ?_⟩
      rcases hstate with hverified | ⟨hreading, htaken, hle⟩
      · refine .inl ?_
        simp [SnapshotReader.nextBatch, RowSource.nextBatch, hverified]
      · obtain ⟨hheader, hsound⟩ := h.readers reader (mem_of_getElem? hrdr)
        rcases SnapshotReader.nextBatch_progress (h.views _) (h.headers _ hheader).2 hsound hadm
          hopen hreading with hverified | ⟨hstill, hmore, hlt⟩
        · exact .inl hverified
        · refine .inr ⟨hstill, ?_, ?_⟩
          · simp only [if_true]
            omega
          · simp only [if_true]
            omega
    | _ => cases hbatch

lemma Clients.Ready.reads_run {header : SnapshotHeader} (h : clients.Ready digests begun events)
    (hreads : clients.Reads index header batches)
    (hreadable : clients.Along digests (fun clients event => event.isBatch index = true →
      clients.world.tables.Readable header.id) events) :
    (clients.run digests events).Reads index header
      (batches + events.countP (Event.isBatch index)) := by
  induction events generalizing clients begun batches with
  | nil => exact hreads
  | cons event events ih =>
    rw [countP_cons, Nat.add_comm (events.countP _), ← Nat.add_assoc]
    exact ih h.next (h.sound.reads_step hreads hreadable.1) hreadable.2

/-! ## Linearizability -/

/-- Sealing is linearizable: in every run of any number of clients, one batch or seal
commits for each revision of a build; a sealed digest is the digest of the members at
the ordinals below the count, which are all; the members of a snapshot do not change
while it is sealed; and a reader that meets no retirement verifies. -/
theorem sealing_linearizable (digests : Digests) (start : Nat) (events : List Event)
    (hfresh : (begunSnapshots events).Nodup) (hscope : ∀ event ∈ events, event.sparesScope = true) :
    ((initial start).commitLog digests events).Nodup ∧
    (∀ row ∈ ((initial start).run digests events).world.tables.snapshots,
      row.state = .sealed → ∃ members, (∀ member, member ∈ members ↔
        member ∈ ((initial start).run digests events).world.tables.snapshotMembers ∧
          member.snapshotId = row.snapshotId) ∧
        members.map MemberRow.ordinal = range row.memberCount ∧
        ∃ coverage : SnapshotCoverage, row.coverage = some coverage.encode ∧
          row.sealedDigest = some (snapshotDigest digests row.contextKey row.discoveryEvidence
            coverage row.memberCount members)) ∧
    (∀ earlier later, events = earlier ++ later →
      ∀ row ∈ ((initial start).run digests earlier).world.tables.snapshots,
      ∀ row' ∈ ((initial start).run digests events).world.tables.snapshots,
        row.state = .sealed → row'.state = .sealed → row'.snapshotId = row.snapshotId →
        ∀ member, member.snapshotId = row.snapshotId →
          (member ∈ ((initial start).run digests events).world.tables.snapshotMembers ↔
            member ∈ ((initial start).run digests earlier).world.tables.snapshotMembers)) ∧
    (∀ earlier header later, events = earlier ++ .readSnapshot header :: later →
      header ∈ ((initial start).run digests earlier).headers →
      ((initial start).run digests (earlier ++ [.readSnapshot header])).Along digests
        (fun clients event => event.isBatch
          ((initial start).run digests earlier).readers.length = true →
            clients.world.tables.Readable header.id) later →
      header.memberCount < later.countP
        (Event.isBatch ((initial start).run digests earlier).readers.length) →
      ∃ reader, ((initial start).run digests events).readers[
          ((initial start).run digests earlier).readers.length]? = some reader ∧
        reader.header = header ∧ reader.reader.state = .verified) := by
  have hready : (initial start).Ready digests [] events :=
    ⟨sound_initial digests start, hfresh, hscope⟩
  refine ⟨hready.nodup_commitLog, ?_, ?_, ?_⟩
  · -- a sealed row: what soundness says of its view
    intro row hrow hstate
    have hfind : (((initial start).run digests events).view row.snapshotId).row = some row :=
      Table.find?_eq_some.mpr ⟨hrow, rfl⟩
    rw [← append_nil events] at hready
    have hview := hready.run.sound.views row.snapshotId
    have hactive : row.isActive = true := SnapshotRow.isActive_iff.mpr (by simp [hstate])
    refine ⟨_, ?_, (hview.complete row hfind hactive).1, hview.digest row hfind hstate⟩
    intro member
    change member ∈ membersFrom _ _ 0 ↔ _
    rw [mem_membersFrom]
    simp
  · -- members change only when the row retires, and it is still sealed
    rintro earlier later rfl row hrow row' hrow' hstate hstate' hid member hmember
    have hfind : (((initial start).run digests earlier).view row.snapshotId).row = some row :=
      Table.find?_eq_some.mpr ⟨hrow, rfl⟩
    have hfind' : (((initial start).run digests (earlier ++ later)).view
        row.snapshotId).row = some row' := Table.find?_eq_some.mpr ⟨hrow', hid⟩
    have hbuilt : ∀ other, (((initial start).run digests earlier).view
        row.snapshotId).row = some other → other.state ≠ .building := by
      intro other hother
      obtain rfl := Option.some.inj (hfind.symm.trans hother)
      simp [hstate]
    have hkept := hready.run.run_kept_or_retired (hready.run.sound.rows _ row hfind) hbuilt
    rw [← run_append] at hkept
    rcases hkept with hsame | hretired
    · have hmem := congrArg (fun view : SnapshotView => member ∈ view.members) hsame
      simpa [view, Tables.view, mem_membersFrom, hmember] using hmem
    · cases hstate'.symm.trans (hretired row' hfind')
  · -- more batches than members: the reader has passed the last one
    rintro earlier header later rfl hheader hreadable hbatches
    have hsplit : earlier ++ Event.readSnapshot header :: later =
        (earlier ++ [Event.readSnapshot header]) ++ later := by
      simp
    rw [hsplit] at hready ⊢
    have hreads : ((initial start).run digests (earlier ++ [.readSnapshot header])).Reads
        ((initial start).run digests earlier).readers.length header 0 := by
      refine ⟨.new header, ?_, rfl, .inr ⟨rfl, Nat.zero_le _, Nat.zero_le _⟩⟩
      rw [run_append_singleton]
      simp [Clients.step, storeStep, Clients.gain, hheader]
    have hrun := hready.run.reads_run hreads hreadable
    rw [← run_append] at hrun
    obtain ⟨reader, hreader, hheader, hverified | ⟨-, -, hle⟩⟩ := hrun
    · exact ⟨reader, hreader, hheader, hverified⟩
    · omega

/-- A read transaction that meets nothing in its way. -/
def ReadTxn.calm : ReadTxn where
  «begin» := .ok ()
  live := true

/-- Build a snapshot of one member and stream its digest, while a copy of the builder
fails to add the member again. -/
def streamingEvents : List Event := [
  .act { process := 0, action := .openStore (.ofByte 9), txn := .calm 1000 },
  .act { process := 0, action := .run (.publishArtifact unitArtifact), txn := .calm 1000 },
  .act { process := 0, action := .run (.publishMemberRecord unitRecord), txn := .calm 1000 },
  .act { process := 0, action := .run (.beginSnapshot projectContext (.ofByte 3) (.ofByte 4)),
         txn := .calm 1000 },
  .act { process := 0, action := .run (.addMembers (projectBuilder 0) [unitRecordId]),
         txn := .calm 1000 },
  .act { process := 0, action := .run (.addMembers (projectBuilder 0) [unitRecordId]),
         txn := .calm 1000 },
  .startSeal (projectBuilder 1) projectSeal,
  .streamBatch { builder := projectBuilder 1, terms := projectSeal, stream := {} } .calm]

/-- The seal once its digest was streamed. -/
def streamedSeal : SealCall :=
  (((initial 0).run lengthDigests streamingEvents).seals.getLast?).getD
    { builder := projectBuilder 1, terms := projectSeal, stream := {} }

def findingEvents : List Event := streamingEvents ++ [.commitSeal streamedSeal 0 (.calm 1000),
  .findSnapshots projectContext .calm]

def foundHeader : SnapshotHeader :=
  (((initial 0).run lengthDigests findingEvents).headers.head?).getD
    { id := .ofByte 3, context := lengthDigest [], memberCount := 0, discovery := none,
      coverage := projectSeal.coverage, sealedDigest := lengthDigest [], publicationSeq := 0 }

theorem sealing_linearizable_foundHeader :
    ∃ reader, ((initial 0).run lengthDigests (findingEvents ++
        [.readSnapshot foundHeader, .nextBatch 0 .calm, .nextBatch 0 .calm])).readers[0]? =
          some reader ∧
      reader.header = foundHeader ∧ reader.reader.state = .verified := by
  have hreads := (sealing_linearizable lengthDigests 0 (findingEvents ++
    [.readSnapshot foundHeader, .nextBatch 0 .calm, .nextBatch 0 .calm])
    (by decide +kernel) (by decide +kernel)).2.2.2
  have hindex : ((initial 0).run lengthDigests findingEvents).readers.length = 0 := by
    decide +kernel
  have hheader : foundHeader ∈ ((initial 0).run lengthDigests findingEvents).headers := by
    decide +kernel
  have hverified := hreads findingEvents foundHeader [.nextBatch 0 .calm, .nextBatch 0 .calm] rfl
    hheader
  rw [hindex] at hverified
  exact hverified (by decide +kernel) (by decide +kernel)

end Lint4d.Store
