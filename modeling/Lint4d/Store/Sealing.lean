import Lint4d.Store.Clients

/-!
# Sealing

A seal streams its digest over several read transactions and then compares and
sets once.  Between two of its transactions other clients may append, seal or
retire, but every such move advances the revision or ends the build, and then
the seal is refused.  So a digest that is stored is the digest of the members
that are there.
-/

namespace Lint4d.Store

open Lint4d.Lib Lint4d.Cache Lint4d.Facts SnapshotBuilder List SnapshotRow

variable {digests : Digests} {t : Tables} {id : Nonce} {action : Action}
  {view view' : SnapshotView} {stream : SealStream} {terms : SnapshotSeal} {txn : ReadTxn}

/-! ## Digests -/

/-- Feed members to a hasher in order. -/
def hashAll (hasher : Hasher) (members : List MemberRow) : Hasher :=
  members.foldl (fun hasher member => SnapshotHasher.update hasher member.recordId member.sourceKey)
    hasher

lemma hashAll_append (hasher : Hasher) (members others : List MemberRow) :
    hashAll hasher (members ++ others) = hashAll (hashAll hasher members) others :=
  foldl_append ..

/-- The digest of a snapshot's manifest. -/
def snapshotDigest (digests : Digests) (context : Digest) (discovery : Option Digest)
    (coverage : SnapshotCoverage) (count : Nat) (members : List MemberRow) : Digest :=
  (hashAll (SnapshotHasher.new context discovery coverage (UInt64.ofNat count)) members).finish
    digests.manifest

variable {members : List MemberRow}

/-- A batch that the streaming loop takes: its ordinals continue, and it is hashed. -/
lemma hashMembers_ok {hasher hasher' : Hasher} {count count' : Nat}
    (h : hashMembers hasher count members = .ok (hasher', count')) :
    hasher' = hashAll hasher members ∧ count' = count + members.length := by
  induction members generalizing hasher count with
  | nil =>
    cases h
    exact ⟨rfl, rfl⟩
  | cons _ members ih =>
    obtain ⟨-, h⟩ := refuse_ok_iff.mp h
    obtain ⟨hhasher, hcount⟩ := ih h
    refine ⟨hhasher, ?_⟩
    rw [hcount, length_cons]
    omega

/-! ## Sound views -/

/-- What holds of one snapshot in every reachable state. -/
structure SnapshotView.Sound (digests : Digests) (view : SnapshotView) : Prop where
  absent : view.row = none → view.members = []
  complete : ∀ row, view.row = some row → row.isActive = true →
    view.members.map MemberRow.ordinal = range row.memberCount ∧
      row.memberCount ≤ maxSnapshotMembers
  bounded : ∀ member ∈ view.members, 32 + member.sourceKey.length ≤ maxRowBatchBytes
  digest : ∀ row, view.row = some row → row.state = .sealed →
    ∃ coverage : SnapshotCoverage, row.coverage = some coverage.encode ∧
      row.sealedDigest = some (snapshotDigest digests row.contextKey row.discoveryEvidence coverage
        row.memberCount view.members)

variable {row : SnapshotRow}

lemma SnapshotRow.isActive_iff : row.isActive = true ↔ row.state ≠ .retired := by
  simp [isActive]

lemma SnapshotView.Sound.length_eq (h : view.Sound digests) (hrow : view.row = some row)
    (hactive : row.isActive = true) :
    view.members.length = row.memberCount := by
  have hlen := congrArg length (h.complete row hrow hactive).1
  simpa using hlen

/-- A batch goes behind the members that are there. -/
lemma MemberBatch.append {start : Nat} {members' added : List MemberRow}
    (h : MemberBatch id start added) (hmems : members.map MemberRow.ordinal = range start)
    (hord : members'.Pairwise fun a b => a.ordinal < b.ordinal)
    (hmem : ∀ member, member ∈ members' ↔ member ∈ members ∨ member ∈ added) :
    members' = members ++ added ∧
      members'.map MemberRow.ordinal = range (start + added.length) := by
  have hords : (members ++ added).map MemberRow.ordinal = range (start + added.length) := by
    rw [map_append, hmems, h.ordinals, range_eq_range', range_eq_range']
    simpa using range'_append_1 (s := 0) (m := start) (n := added.length)
  have heq : members' = members ++ added := by
    apply eq_of_ordinals hord (pairwise_map.mp (hords ▸ pairwise_lt_range))
    intro member
    rw [hmem, mem_append]
  rw [heq]
  exact ⟨rfl, hords⟩

/-- Moves keep views sound, if a seal stores the digest of what is there. -/
lemma SnapshotView.Moves.sound (h : Moves digests action id view view')
    (hsound : view.Sound digests) (hord : view'.members.Pairwise fun a b => a.ordinal < b.ordinal)
    (hdig : ∀ builder terms count digest,
      action = .run (.sealSnapshot builder terms count digest) → ∀ row, view.row = some row →
        builder.holds row = true → digest = snapshotDigest digests row.contextKey terms.discovery
          terms.coverage row.memberCount view.members) :
    view'.Sound digests := by
  cases h with
  | kept => exact hsound
  | began haction =>
    obtain rfl := hsound.absent rfl
    refine ⟨nofun, ?_, by simp, ?_⟩
    · intro row hrow _
      cases hrow
      exact ⟨rfl, Nat.zero_le _⟩
    · intro row hrow hstate
      cases hrow
      cases hstate
  | @advanced builder _ row members _ _ haction hheld hadded hmem hcount =>
    obtain ⟨-, -, -, hbuild⟩ := holds_iff.mp hheld
    obtain ⟨hords, -⟩ := hsound.complete row rfl
      (isActive_iff.mpr (by simp [hbuild]))
    obtain ⟨-, hordinals'⟩ := hadded.append hords hord hmem
    refine ⟨nofun, ?_, ?_, ?_⟩
    · intro other hother _
      cases hother
      exact ⟨hordinals', hcount⟩
    · intro member hmember
      rcases (hmem member).mp hmember with hold | hnew
      · exact hsound.bounded member hold
      · exact hadded.bounded member hnew
    · intro other hother hstate
      cases hother
      cases hbuild.symm.trans hstate
  | @completed builder terms count digest row members _ haction hheld hcount =>
    obtain ⟨-, -, -, hbuild⟩ := holds_iff.mp hheld
    refine ⟨nofun, ?_, hsound.bounded, ?_⟩
    · intro other hother _
      cases hother
      exact hsound.complete row rfl (isActive_iff.mpr (by simp [hbuild]))
    · intro other hother _
      cases hother
      refine ⟨terms.coverage, rfl, ?_⟩
      exact congrArg some (hdig builder terms count digest haction row rfl hheld)
  | retired =>
    refine ⟨nofun, ?_, hsound.bounded, ?_⟩
    · intro other hother hactive
      cases hother
      cases hactive
    · intro other hother hstate
      cases hother
      cases hstate
  | thinned hret hsub =>
    refine ⟨nofun, ?_, ?_, ?_⟩
    · intro other hother hactive
      cases hother
      exact absurd hret (isActive_iff.mp hactive)
    · exact fun member hmember => hsound.bounded member (hsub member hmember)
    · intro other hother hstate
      cases hother
      cases hret.symm.trans hstate
  | removed hret =>
    refine ⟨fun _ => rfl, ?_, by simp, ?_⟩
    · intro other hother
      cases hother
    · intro other hother
      cases hother

/-! ## Sound builders -/

/-- The action begins snapshot `id`. -/
def Action.Begins (action : Action) (id : Nonce) : Prop :=
  ∃ context token, action = .run (.beginSnapshot context id token)

/-- A builder is of its snapshot's context and not ahead of it. -/
def SnapshotBuilder.Sound (view : SnapshotView) (builder : SnapshotBuilder) : Prop :=
  ∀ row, view.row = some row →
    builder.context = row.contextKey ∧ builder.revision ≤ row.buildRevision

variable (h : SnapshotView.Moves digests action id view view') (hold : ¬ action.Begins id)

include h hold in
/-- A row that a step does not begin was there before it, in the same context and not at
a later revision; a step never makes it a build again. -/
lemma SnapshotView.Moves.exists_old (hrow : view'.row = some row) :
    ∃ old, view.row = some old ∧ old.contextKey = row.contextKey ∧
      old.buildRevision ≤ row.buildRevision ∧ (row.state = .building → old.state = .building) := by
  cases h with
  | kept => exact ⟨row, hrow, rfl, le_rfl, fun hstate => hstate⟩
  | began haction => exact absurd ⟨_, _, haction⟩ hold
  | advanced =>
    cases hrow
    exact ⟨_, rfl, rfl, Nat.le_succ _, fun hstate => hstate⟩
  | completed | retired =>
    cases hrow
    exact ⟨_, rfl, rfl, le_rfl, fun hstate => by cases hstate⟩
  | thinned =>
    cases hrow
    exact ⟨_, rfl, rfl, le_rfl, fun hstate => hstate⟩
  | removed => cases hrow

include h hold in
lemma SnapshotView.Moves.builder {builder : SnapshotBuilder} (hbuilder : builder.Sound view) :
    builder.Sound view' := by
  intro row hrow
  obtain ⟨old, hrowOld, hctx, hrev, -⟩ := h.exists_old hold hrow
  obtain ⟨hsame, hle⟩ := hbuilder old hrowOld
  exact ⟨hsame.trans hctx, hle.trans hrev⟩

variable {builder : SnapshotBuilder}

include h hold in
/-- Who holds a build after a step held it before, and nothing was moved. -/
lemma SnapshotView.Moves.eq_of_held (hbuilder : builder.Sound view)
    (hrow : view'.row = some row) (hholds : builder.holds row = true) : view' = view := by
  obtain ⟨-, -, hrev, hbuild⟩ := holds_iff.mp hholds
  cases h with
  | kept => rfl
  | began haction => exact absurd ⟨_, _, haction⟩ hold
  | advanced =>
    -- the builder's revision is behind the one the members were added at
    cases hrow
    have hbehind := (hbuilder _ rfl).2
    simp only [advance] at hrev
    omega
  | completed | retired =>
    cases hrow
    cases hbuild
  | thinned hret =>
    cases hrow
    cases hret.symm.trans hbuild
  | removed => cases hrow

/-! ## Sound seals -/

/-- The stream has hashed the first members of the build its builder holds. -/
structure SealStream.Follows (stream : SealStream) (builder : SnapshotBuilder)
    (terms : SnapshotSeal) (row : SnapshotRow) (members : List MemberRow) : Prop where
  started : ∀ hasher, stream.hasher = some hasher → stream.storedCount = row.memberCount ∧
    hasher = hashAll (SnapshotHasher.new builder.context terms.discovery terms.coverage
      (UInt64.ofNat row.memberCount)) (members.take stream.count)
  fresh : stream.hasher = none → stream.count = 0 ∧ stream.finished = false
  le : stream.count ≤ row.memberCount
  ended : stream.finished = true → stream.count = row.memberCount

lemma SealStream.Follows.resume (h : stream.Follows builder terms row members) :
    stream.resume builder terms row.memberCount = (row.memberCount,
      hashAll (SnapshotHasher.new builder.context terms.discovery terms.coverage
        (UInt64.ofNat row.memberCount)) (members.take stream.count)) := by
  unfold SealStream.resume
  cases hhasher : stream.hasher with
  | none =>
    obtain ⟨hcount, -⟩ := h.fresh hhasher
    rw [hcount, take_zero]
    rfl
  | some hasher =>
    obtain ⟨hstored, rfl⟩ := h.started hasher hhasher
    rw [hstored]

def SealCall.Sound (view : SnapshotView) (call : SealCall) : Prop :=
  ∀ row, view.row = some row → call.builder.holds row = true →
    call.stream.Follows call.builder call.terms row view.members

lemma SealCall.sound_new (view : SnapshotView) (builder : SnapshotBuilder)
    (terms : SnapshotSeal) : SealCall.Sound view { builder, terms, stream := {} } := by
  intro row _ _
  exact ⟨nofun, fun _ => ⟨rfl, rfl⟩, Nat.zero_le _, nofun⟩

include h hold in
lemma SnapshotView.Moves.seal {call : SealCall} (hbuilder : call.builder.Sound view)
    (hcall : call.Sound view) : call.Sound view' := by
  intro row hrow hholds
  obtain rfl := h.eq_of_held hold hbuilder hrow hholds
  exact hcall row hrow hholds

/-- The next batch of a list of which `count` items were taken. -/
lemma take_append_batch {α : Type} (items : List α) (count limit : Nat) :
    items.take (count + ((items.drop count).take limit).length) =
      items.take count ++ (items.drop count).take limit := by
  rw [take_add, length_take, ← take_eq_take_min]

/-- One batch of the streaming loop. -/
lemma streamBatch_follows {stream' : SealStream}
    (h : streamBatch builder terms txn stream t = .ok stream')
    (hview : (t.view builder.id).Sound digests)
    (hstream : SealCall.Sound (t.view builder.id) ⟨builder, terms, stream⟩) :
    SealCall.Sound (t.view builder.id) ⟨builder, terms, stream'⟩ := by
  intro row hrow hholds
  have hfollows : stream.Follows builder terms row (membersFrom t builder.id 0) :=
    hstream row hrow hholds
  obtain ⟨-, -, -, hbuild⟩ := holds_iff.mp hholds
  have hactive : row.isActive = true := isActive_iff.mpr (by simp [hbuild])
  have hlen : (membersFrom t builder.id 0).length = row.memberCount := hview.length_eq hrow hactive
  have hords := (hview.complete row hrow hactive).1
  replace h := ok_of_bind_ok (ok_of_bind_ok h)
  split at h
  · cases h
  · rename_i memberCount hheldCount
    obtain ⟨held, hheld, rfl⟩ := Option.map_eq_some_iff.mp hheldCount
    rw [(heldRow_view hheld).1] at hrow
    obtain rfl : held = row := Option.some.inj hrow
    rw [hfollows.resume] at h
    obtain ⟨⟨hasher, count⟩, hhashed, h⟩ := bind_ok_iff.mp h
    obtain rfl := pure_ok_iff.mp h
    obtain ⟨rfl, rfl⟩ := hashMembers_ok hhashed
    rw [membersFrom_eq_drop hords stream.count, ← hashAll_append, ← take_append_batch]
    have htaken : ((membersFrom t builder.id 0).drop stream.count).length =
        held.memberCount - stream.count := by
      rw [length_drop, hlen]
    have hle := hfollows.le
    refine ⟨?_, fun hnone => absurd hnone (Option.some_ne_none _), ?_, ?_⟩
    · intro hasher hhasher
      cases hhasher
      exact ⟨rfl, rfl⟩
    · simp only [length_take, htaken]
      omega
    · intro hfinished
      have hfinished := of_decide_eq_true hfinished
      simp only [length_take, htaken] at hfinished ⊢
      omega

/-- The digest of a stream that has ended, for a builder that still holds its build. -/
lemma SealStream.Follows.digest {digest : Digest}
    (h : stream.Follows builder terms row members) (hlen : members.length = row.memberCount)
    (hdig : stream.digest digests = .ok digest) :
    digest = snapshotDigest digests builder.context terms.discovery terms.coverage row.memberCount
      members := by
  unfold SealStream.digest at hdig
  split at hdig
  · rename_i hasher hhasher
    split at hdig
    · rename_i hended
      cases hdig
      rw [(h.started hasher hhasher).2, h.ended hended.1, ← hlen, take_length]
      rfl
    · cases hdig
  · cases hdig

/-! ## Sound headers -/

/-- The header has what the row of a sealed snapshot stores. -/
structure SnapshotHeader.Describes (header : SnapshotHeader) (row : SnapshotRow) : Prop where
  memberCount : header.memberCount = row.memberCount
  context : header.context = row.contextKey
  discovery : header.discovery = row.discoveryEvidence
  coverage : row.coverage = some header.coverage.encode
  sealedDigest : row.sealedDigest = some header.sealedDigest

/-- The header is of a snapshot that was sealed, and describes it while it is. -/
def SnapshotHeader.Sound (view : SnapshotView) (header : SnapshotHeader) : Prop :=
  ∀ row, view.row = some row → row.state ≠ .building ∧ (row.state = .sealed → header.Describes row)

include h hold in
/-- From a sealed view, a view stays or is retired. -/
lemma SnapshotView.Moves.kept_or_retired
    (hbuilt : ∀ row, view.row = some row → row.state ≠ .building) :
    view' = view ∨ ∀ row, view'.row = some row → row.state = .retired := by
  cases h with
  | kept => exact .inl rfl
  | began haction => exact absurd ⟨_, _, haction⟩ hold
  | advanced _ hheld | completed _ hheld => exact absurd (holds_iff.mp hheld).2.2.2 (hbuilt _ rfl)
  | retired =>
    right
    intro row hrow
    cases hrow
    rfl
  | thinned hret =>
    right
    intro row hrow
    cases hrow
    exact hret
  | removed =>
    right
    intro row hrow
    cases hrow

include h hold in
lemma SnapshotView.Moves.header {header : SnapshotHeader} (hheader : header.Sound view) :
    header.Sound view' := by
  have hsealed : ∀ row, view.row = some row → row.state ≠ .building :=
    fun row hrow => (hheader row hrow).1
  rcases h.kept_or_retired hold hsealed with rfl | hret
  · exact hheader
  · intro row hrow
    rw [hret row hrow]
    exact ⟨by simp, by simp⟩

lemma exists_of_mapM_some {α β : Type} {f : α → Option β} {items : List α} {results : List β}
    (h : items.mapM f = some results) {result : β} (hres : result ∈ results) :
    ∃ item ∈ items, f item = some result := by
  induction items generalizing results with
  | nil =>
    cases h
    cases hres
  | cons item items ih =>
    simp only [mapM_cons, Option.bind_eq_bind, Option.bind_eq_some_iff, Option.pure_def,
      Option.some.injEq] at h
    obtain ⟨_, hfirst, _, hrest, rfl⟩ := h
    rcases mem_cons.mp hres with rfl | htail
    · exact ⟨item, mem_cons_self .., hfirst⟩
    · obtain ⟨other, hother, heq⟩ := ih hrest htail
      exact ⟨other, mem_cons_of_mem item hother, heq⟩

lemma headerFrom_describes {context : Digest} {header : SnapshotHeader}
    (h : headerFrom context row = some header) (hctx : row.contextKey = context) :
    header.id = row.snapshotId ∧ header.Describes row := by
  simp only [headerFrom, Option.bind_eq_bind, Option.bind_eq_some_iff, Option.pure_def,
    Option.some.injEq] at h
  obtain ⟨_, -, bytes, hbytes, coverage, hcov, _, hdig, _, -, rfl⟩ := h
  have hencode : bytes = coverage.encode := by
    cases hdecode : decodeSnapshotCoverage bytes with
    | error e =>
      rw [hdecode] at hcov
      cases hcov
    | ok found =>
      rw [hdecode] at hcov
      obtain rfl := Option.some.inj hcov
      exact (decodeSnapshotCoverage_eq_ok bytes found).mp hdecode
  refine ⟨rfl, ⟨rfl, hctx.symm, rfl, ?_, hdig⟩⟩
  rw [hbytes, hencode]

/-- A header that is found describes the sealed snapshot it is of. -/
lemma findSnapshots_ok {context : CanonicalKey} {headers : List SnapshotHeader}
    (h : findSnapshots digests context txn t = .ok (.hit headers)) {header : SnapshotHeader}
    (hheader : header ∈ headers) :
    ∃ row, (t.view header.id).row = some row ∧ row.state = .sealed ∧ header.Describes row := by
  replace h := ok_of_bind_ok (ok_of_bind_ok h)
  split at h
  · cases h
  · split at h
    · cases h
    · cases h
    · rename_i found hfound
      cases h
      obtain ⟨row, hrow, heq⟩ := exists_of_mapM_some hfound hheader
      have hmem := mem_of_mem_take hrow
      rw [mem_insertionSort, mem_filter] at hmem
      obtain ⟨hrow, hmatch⟩ := hmem
      simp only [Bool.and_eq_true, decide_eq_true_eq] at hmatch
      obtain ⟨hid, hdesc⟩ := headerFrom_describes heq hmatch.1
      exact ⟨row, Table.find?_eq_some.mpr ⟨hrow, hid.symm⟩, hmatch.2, hdesc⟩

end Lint4d.Store
