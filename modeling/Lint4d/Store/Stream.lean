import Lint4d.Store.Tables

/-!
# Streamed manifests

`store/stream.rs`: the rows of an evidence set, a member record or a snapshot
are read in bounded batches, each in its own read transaction, while a witness
recomputes their digest.  A read is verified only at the end, when no row
follows the counted ones and the witness is the digest the header promised.

The kind of manifest is a `RowSource`; the witness and the rows are arbitrary
types.
-/

namespace Lint4d.Store

open Lint4d.Lib Lint4d.Cache

/-- A lookup's answer. -/
inductive Lookup (α : Type) where
  | hit (value : α)
  | miss (miss : Miss)
deriving DecidableEq

/-- What one read transaction meets outside the tables of its scope. -/
structure ReadTxn where
  /-- Whether scratch and a reader are available and the statements can be run. -/
  «begin» : Except Bypass Unit
  /-- What `ensure_live` finds. -/
  live : Bool

/-- Where the loop over a batch can meet an SQL error. -/
inductive RowStep where
  | next
  | ordinal
  | size
  | take
deriving DecidableEq

/-- What one call of `next_batch` meets: the transaction may fail at any step of any row. -/
structure BatchTxn extends ReadTxn where
  /-- The health guard and the scope check, before the reader's state is looked at. -/
  guarded : Except Bypass Unit
  /-- The SQL error at a step of the row with an ordinal, as `classify_read` reads it. -/
  fault : Nat → RowStep → Option (Except Bypass Miss)

/-- A step of the loop, which its fault ends. -/
def BatchTxn.reach (txn : BatchTxn) (ordinal : Nat) (step : RowStep) :
    Except (Except Bypass Miss) Unit :=
  match txn.fault ordinal step with
  | none => .ok ()
  | some error => .error error

/-- A transaction whose rows can all be read. -/
def ReadTxn.undisturbed (txn : ReadTxn) : BatchTxn :=
  { txn with guarded := .ok (), fault := fun _ _ => none }

@[simp] lemma ReadTxn.toReadTxn_undisturbed (txn : ReadTxn) : txn.undisturbed.toReadTxn = txn := rfl

@[simp] lemma ReadTxn.guarded_undisturbed (txn : ReadTxn) : txn.undisturbed.guarded = .ok () := rfl

@[simp] lemma ReadTxn.reach_undisturbed (txn : ReadTxn) (ordinal : Nat) (step : RowStep) :
    txn.undisturbed.reach ordinal step = .ok () := rfl

def ReadTxn.ensureLive (txn : ReadTxn) : Except Bypass Unit :=
  if txn.live then .ok () else .error .fenced

/-- One kind of streamed manifest: rows of type `ρ` give items of type `ι` and
are folded into a witness of type `σ`. -/
structure RowSource (σ ρ ι : Type) where
  /-- Whether the parent is readable; `none` when it is gone. -/
  parent : Tables → Option Bool
  /-- The rows from an ordinal on, in ordinal order. -/
  rows : Tables → Nat → List (Nat × ρ)
  /-- The row's stored bytes. -/
  size : ρ → Nat
  /-- Check the row and fold it into the witness. -/
  take : σ → Nat → ρ → Except Miss (ι × σ)
  /-- The digest of everything taken so far. -/
  finish : σ → Digest

/-- What the parent's header promises. -/
structure Expected where
  count : Nat
  contentBytes : Option Nat
  witness : Digest
deriving DecidableEq

inductive ReadState where
  | reading
  | verified
  | failed (miss : Miss)
deriving DecidableEq

structure ManifestReader (σ : Type) where
  expected : Expected
  source : σ
  nextOrdinal : Nat
  readBytes : Nat
  state : ReadState
deriving DecidableEq

variable {σ ρ ι : Type}

def ManifestReader.new (expected : Expected) (source : σ) : ManifestReader σ :=
  { expected, source, nextOrdinal := 0, readBytes := 0, state := .reading }

namespace RowSource

variable (manifest : RowSource σ ρ ι)

/-- Why the parent can no longer be read; `none` while it is readable. -/
def ineligible (tables : Tables) : Option Miss :=
  match manifest.parent tables with
  | none => some .vanished
  | some true => none
  | some false => some .retired

/-- A batch in the making: the witness and the counters advance in locals. -/
structure Progress (σ ι : Type) where
  source : σ
  nextOrdinal : Nat
  readBytes : Nat
  bytes : Nat
  items : List ι
deriving DecidableEq

end RowSource

/-- Where a batch of a reader starts. -/
def ManifestReader.progress (reader : ManifestReader σ) : RowSource.Progress σ ι where
  source := reader.source
  nextOrdinal := reader.nextOrdinal
  readBytes := reader.readBytes
  bytes := 0
  items := []

@[simp] lemma ManifestReader.progress_nextOrdinal (reader : ManifestReader σ) :
    (reader.progress : RowSource.Progress σ ι).nextOrdinal = reader.nextOrdinal := rfl

/-- The reader once a batch was taken. -/
def ManifestReader.advance (reader : ManifestReader σ) (progress : RowSource.Progress σ ι) :
    ManifestReader σ :=
  { reader with
    source := progress.source
    nextOrdinal := progress.nextOrdinal
    readBytes := progress.readBytes }

namespace RowSource

variable (manifest : RowSource σ ρ ι)

/-- The loop over the rows of one batch.  A row beyond the byte allowance waits
for the next batch, and an error drops what the batch had taken. -/
def takeRows (txn : BatchTxn) (count : Nat) :
    Progress σ ι → List (Nat × ρ) → Except (Except Bypass Miss) (Progress σ ι)
  | progress, [] => do
    -- `rows.next()` can fail where it would have found the end.
    txn.reach progress.nextOrdinal .next
    pure progress
  | progress, (ordinal, row) :: rows => do
    txn.reach progress.nextOrdinal .next
    txn.reach progress.nextOrdinal .ordinal
    if ordinal ≠ progress.nextOrdinal then .error (.ok (.malformed .ordinal))
    else if count ≤ progress.nextOrdinal then .error (.ok (.malformed .count))
    else do
      txn.reach progress.nextOrdinal .size
      if maxRowBatchBytes < manifest.size row then .error (.ok .oversized)
      else if maxRowBatchBytes < progress.bytes + manifest.size row then .ok progress
      else do
        txn.reach progress.nextOrdinal .take
        let (item, source) ← (manifest.take progress.source ordinal row).mapError .ok
        takeRows txn count {
          source
          nextOrdinal := progress.nextOrdinal + 1
          readBytes := progress.readBytes + manifest.size row
          bytes := progress.bytes + manifest.size row
          items := progress.items ++ [item] } rows

/-- A miss is sticky. -/
def fail (reader : ManifestReader σ) (miss : Miss) :
    ManifestReader σ × Except Bypass (Lookup (Option (List ι))) :=
  ({ reader with state := .failed miss }, .ok (.miss miss))

/-- The end of a read, once every counted row was taken. -/
def verify (reader : ManifestReader σ) (tables : Tables) :
    ManifestReader σ × Except Bypass (Lookup (Option (List ι))) :=
  match manifest.ineligible tables with
  | some miss => fail reader miss
  | none =>
    if manifest.rows tables reader.expected.count ≠ [] then fail reader (.malformed .count)
    else if reader.expected.contentBytes.all (fun bytes => bytes = reader.readBytes) ∧
        manifest.finish reader.source = reader.expected.witness then
      ({ reader with state := .verified }, .ok (.hit none))
    else fail reader .checksumMismatch

/-- One batch of rows; only a batch that is handed out moves the reader. -/
def readBatch (txn : BatchTxn) (reader : ManifestReader σ) (tables : Tables) :
    ManifestReader σ × Except Bypass (Lookup (Option (List ι))) :=
  match manifest.ineligible tables with
  | some miss => fail reader miss
  | none =>
    let rows := (manifest.rows tables reader.nextOrdinal).take maxRowBatchRows
    match manifest.takeRows txn reader.expected.count reader.progress rows with
    | .error (.ok miss) => fail reader miss
    | .error (.error bypass) => (reader, .error bypass)
    | .ok progress =>
      if progress.items.length = 0 then fail reader (.malformed .count)
      else (reader.advance progress, .ok (.hit (some progress.items)))

/-- `next_batch`: the next batch, or `hit none` once every row was read and the
witness verified. -/
def nextBatch (txn : BatchTxn) (reader : ManifestReader σ) (tables : Tables) :
    ManifestReader σ × Except Bypass (Lookup (Option (List ι))) :=
  match txn.guarded, reader.state with
  | .error bypass, _ => (reader, .error bypass)
  | .ok (), .verified => (reader, .ok (.hit none))
  | .ok (), .failed miss => (reader, .ok (.miss miss))
  | .ok (), .reading =>
    match (do txn.begin; txn.ensureLive : Except Bypass Unit) with
    | .error bypass => (reader, .error bypass)
    | .ok () =>
      if reader.nextOrdinal = reader.expected.count then manifest.verify reader tables
      else manifest.readBatch txn reader tables

variable (txn : BatchTxn) (reader : ManifestReader σ) (tables : Tables) in
/-- What a call of `next_batch` can make of a reader, and answer. -/
inductive Answers :
    ManifestReader σ × Except Bypass (Lookup (Option (List ι))) → Prop
  | bypassed (bypass : Bypass) : Answers (reader, .error bypass)
  | done (hstate : reader.state = .verified) : Answers (reader, .ok (.hit none))
  | missed {miss} (hstate : reader.state = .failed miss) : Answers (reader, .ok (.miss miss))
  | failed (miss : Miss) : Answers (fail reader miss)
  | verified (hreading : reader.state = .reading)
      (hcount : reader.nextOrdinal = reader.expected.count)
      (hparent : manifest.parent tables = some true)
      (hrows : manifest.rows tables reader.expected.count = [])
      (hbytes : ∀ bytes ∈ reader.expected.contentBytes, bytes = reader.readBytes)
      (hwitness : manifest.finish reader.source = reader.expected.witness) :
      Answers ({ reader with state := .verified }, .ok (.hit none))
  | advanced {progress} (hreading : reader.state = .reading)
      (htaken : manifest.takeRows txn reader.expected.count reader.progress
        ((manifest.rows tables reader.nextOrdinal).take maxRowBatchRows) = .ok progress) :
      Answers (reader.advance progress, .ok (.hit (some progress.items)))

lemma ineligible_eq_none {tables : Tables} (h : manifest.ineligible tables = none) :
    manifest.parent tables = some true := by
  unfold ineligible at h
  split at h
  · cases h
  · assumption
  · cases h

lemma nextBatch_answers (txn : BatchTxn) (reader : ManifestReader σ) (tables : Tables) :
    manifest.Answers txn reader tables (manifest.nextBatch txn reader tables) := by
  unfold nextBatch
  split
  · exact .bypassed _
  · exact .done ‹_›
  · exact .missed ‹_›
  · rename_i hreading
    split
    · exact .bypassed _
    · split
      · rename_i hcount
        unfold verify
        split
        · exact .failed _
        · rename_i heligible
          split
          · exact .failed _
          · rename_i hrows
            split
            · rename_i hend
              exact .verified hreading hcount (manifest.ineligible_eq_none heligible)
                (not_not.mp hrows) (by simpa [Option.all_eq_true] using hend.1) hend.2
            · exact .failed _
      · unfold readBatch
        split
        · exact .failed _
        · dsimp only
          split
          · exact .failed _
          · -- A bypass inside the batch: the locals are dropped.
            exact .bypassed _
          · split
            · exact .failed _
            · exact .advanced hreading ‹_›

/-- A failed reader answers its miss whenever it is asked. -/
lemma nextBatch_of_failed (call : BatchTxn × Tables) {reader : ManifestReader σ} {miss : Miss}
    (h : reader.state = .failed miss) : manifest.nextBatch call.1 reader call.2 =
      (reader, do call.1.guarded; pure (.miss miss)) := by
  unfold nextBatch
  rw [h]
  cases call.1.guarded <;> rfl

/-! ## Whole reads -/

/-- Takes consecutive rows from an ordinal on. -/
def takeAll (source : σ) (ordinal : Nat) : List ρ → Except Miss (List ι × σ)
  | [] => .ok ([], source)
  | row :: rows => do
    let (item, source) ← manifest.take source ordinal row
    let (items, source) ← takeAll source (ordinal + 1) rows
    pure (item :: items, source)

/-- The items a call hands out. -/
def handedOut : Except Bypass (Lookup (Option (List ι))) → List ι
  | .ok (.hit (some items)) => items
  | _ => []

/-- Calls of `next_batch` of a new reader, each on the tables of its own transaction, and the
items they hand out. -/
def read (promised : Expected) (source : σ) (calls : List (BatchTxn × Tables)) :
    ManifestReader σ × List ι :=
  calls.foldl (fun sofar call =>
    let (reader, answer) := manifest.nextBatch call.1 sofar.1 call.2
    (reader, sofar.2 ++ handedOut answer)) (.new promised source, [])

lemma read_append (promised : Expected) (source : σ) (calls : List (BatchTxn × Tables))
    (call : BatchTxn × Tables) : manifest.read promised source (calls ++ [call]) =
      ((manifest.nextBatch call.1 (manifest.read promised source calls).1 call.2).1,
        (manifest.read promised source calls).2 ++ handedOut
          (manifest.nextBatch call.1 (manifest.read promised source calls).1 call.2).2) := by
  rw [read, List.foldl_append]
  rfl

variable {manifest}

lemma takeAll_append {source middle final : σ} {ordinal : Nat} {rows more : List ρ}
    {items others : List ι} (h : manifest.takeAll source ordinal rows = .ok (items, middle))
    (hmore : manifest.takeAll middle (ordinal + rows.length) more = .ok (others, final)) :
    manifest.takeAll source ordinal (rows ++ more) = .ok (items ++ others, final) := by
  induction rows generalizing source ordinal items with
  | nil =>
    cases h
    exact hmore
  | cons row rows ih =>
    simp only [takeAll, bind_ok_iff, Prod.exists, pure_ok_iff] at h
    obtain ⟨item, next, htake, rest, _, hrest, heq⟩ := h
    cases heq
    rw [List.length_cons, Nat.add_comm rows.length, ← Nat.add_assoc] at hmore
    simp only [List.cons_append, takeAll, bind_ok_iff, Prod.exists, pure_ok_iff]
    exact ⟨item, next, htake, _, _, ih hrest hmore, rfl⟩

/-- What the loop over a batch takes: consecutive rows from where it starts. -/
lemma takeRows_taken {txn : BatchTxn} {count : Nat} {start progress : Progress σ ι}
    {rows : List (Nat × ρ)} (h : manifest.takeRows txn count start rows = .ok progress) :
    ∃ taken items, progress.nextOrdinal = start.nextOrdinal + taken.length ∧
      (∀ i row, taken[i]? = some row → (start.nextOrdinal + i, row) ∈ rows) ∧
      manifest.takeAll start.source start.nextOrdinal taken = .ok (items, progress.source) ∧
      progress.items = start.items ++ items ∧
      progress.readBytes = start.readBytes + (taken.map manifest.size).sum := by
  induction rows generalizing start with
  | nil =>
    simp only [takeRows, bind_ok_iff, pure_ok_iff] at h
    obtain ⟨-, -, rfl⟩ := h
    exact ⟨[], [], by simp [takeAll]⟩
  | cons entry rows ih =>
    obtain ⟨ordinal, row⟩ := entry
    simp only [takeRows, bind_ok_iff, refuse_ok_iff, not_not] at h
    obtain ⟨-, -, -, -, rfl, -, -, -, -, h⟩ := h
    split at h
    · -- The byte allowance is spent: the row waits for the next batch.
      cases h
      exact ⟨[], [], by simp [takeAll]⟩
    · simp only [bind_ok_iff, mapError_eq_ok, Prod.exists] at h
      obtain ⟨-, -, item, source, htake, hrest⟩ := h
      obtain ⟨taken, items, hnext, hmem, hall, hitems, hbytes⟩ := ih hrest
      refine ⟨row :: taken, item :: items, ?_, ?_, ?_, ?_, ?_⟩
      · rw [hnext, List.length_cons, Nat.add_right_comm, Nat.add_assoc]
      · rintro (_ | i) other hi
        · simp_all
        · rw [← Nat.add_assoc, Nat.add_right_comm]
          exact List.mem_cons_of_mem _ (hmem i other hi)
      · simp only [takeAll, htake, hall, bind, Except.bind, pure, Except.pure]
      · rw [hitems, List.append_assoc]
        rfl
      · rw [hbytes, List.map_cons, List.sum_cons, Nat.add_assoc]

section

variable (manifest) (promised : Expected) (source : σ) (calls : List (BatchTxn × Tables))

/-- The items so far come from the rows below the reader's ordinal, in order and each once, as
the transactions found them. -/
structure ReadUpTo (reader : ManifestReader σ) (items : List ι) (rows : List ρ) : Prop where
  ordinal : rows.length = reader.nextOrdinal
  stored : ∀ i row, rows[i]? = some row →
    ∃ call ∈ calls, ∃ start, (i, row) ∈ manifest.rows call.2 start
  taken : manifest.takeAll source 0 rows = .ok (items, reader.source)
  bytes : (rows.map manifest.size).sum = reader.readBytes

/-- The reader keeps what the header promised, and one of the calls verified it: the parent was
readable then, and no row followed. -/
structure Complete (reader : ManifestReader σ) : Prop where
  count : reader.nextOrdinal = promised.count
  bytes : ∀ bytes ∈ promised.contentBytes, bytes = reader.readBytes
  witness : manifest.finish reader.source = promised.witness
  verified : ∃ before call after, calls = before ++ call :: after ∧
    (manifest.read promised source before).1.state = .reading ∧
    (manifest.read promised source (before ++ [call])).1.state = .verified ∧
    manifest.parent call.2 = some true ∧ manifest.rows call.2 promised.count = []

end

variable {promised : Expected} {source : σ} {calls : List (BatchTxn × Tables)}
  {reader : ManifestReader σ} {items : List ι} {rows : List ρ}

lemma ReadUpTo.more (h : manifest.ReadUpTo source calls reader items rows)
    (call : BatchTxn × Tables) (state : ReadState) :
    manifest.ReadUpTo source (calls ++ [call]) { reader with state } items rows where
  ordinal := h.ordinal
  stored i row hi := by
    obtain ⟨other, hother, hstored⟩ := h.stored i row hi
    exact ⟨other, List.mem_append_left _ hother, hstored⟩
  taken := h.taken
  bytes := h.bytes

lemma ReadUpTo.advance (h : manifest.ReadUpTo source calls reader items rows)
    (call : BatchTxn × Tables) {progress : Progress σ ι}
    (htaken : manifest.takeRows call.1 reader.expected.count reader.progress
      ((manifest.rows call.2 reader.nextOrdinal).take maxRowBatchRows) = .ok progress) :
    ∃ rows, manifest.ReadUpTo source (calls ++ [call]) (reader.advance progress)
      (items ++ progress.items) rows := by
  obtain ⟨taken, others, hnext, hmem, hall, hitems, hbytes⟩ := takeRows_taken htaken
  refine ⟨rows ++ taken, ?_, fun i row hi => ?_, ?_, ?_⟩
  · rw [List.length_append, h.ordinal]
    exact hnext.symm
  · rcases Nat.lt_or_ge i rows.length with hlt | hge
    · rw [List.getElem?_append_left hlt] at hi
      exact (h.more call .reading).stored i row hi
    · rw [List.getElem?_append_right hge] at hi
      have hrow := hmem _ _ hi
      rw [h.ordinal] at hge hrow
      rw [ManifestReader.progress_nextOrdinal, Nat.add_sub_cancel' hge] at hrow
      exact ⟨call, by simp, _, List.mem_of_mem_take hrow⟩
  · rw [show progress.items = others from hitems]
    refine takeAll_append h.taken ?_
    rw [Nat.zero_add, h.ordinal]
    exact hall
  · rw [List.map_append, List.sum_append, h.bytes]
    exact hbytes.symm

variable (manifest promised source calls) in
lemma read_spec : (manifest.read promised source calls).1.expected = promised ∧
    (∃ rows, manifest.ReadUpTo source calls (manifest.read promised source calls).1
      (manifest.read promised source calls).2 rows) ∧
    ((manifest.read promised source calls).1.state = .verified →
      manifest.Complete promised source calls (manifest.read promised source calls).1) := by
  induction calls using List.reverseRecOn with
  | nil => exact ⟨rfl, ⟨[], rfl, by simp, rfl, rfl⟩, nofun⟩
  | append_singleton calls call ih =>
    obtain ⟨hexpected, ⟨rows, hread⟩, hverified⟩ := ih
    have hnext := manifest.read_append promised source calls call
    have hstep := manifest.nextBatch_answers call.1 (manifest.read promised source calls).1 call.2
    rw [hnext]
    generalize manifest.nextBatch call.1 (manifest.read promised source calls).1 call.2 = result
      at hstep hnext ⊢
    cases hstep with
    | bypassed | done | missed =>
      -- The call leaves the reader as it is.
      simp only [handedOut, List.append_nil]
      refine ⟨hexpected, ⟨rows, hread.more call _⟩, fun hstate => ?_⟩
      obtain ⟨hcount, hbytes, hwitness, before, verifying, after, rfl, hfacts⟩ := hverified hstate
      exact ⟨hcount, hbytes, hwitness, before, verifying, after ++ [call], by simp, hfacts⟩
    | failed miss =>
      simp only [fail, handedOut, List.append_nil]
      exact ⟨hexpected, ⟨rows, hread.more call _⟩, nofun⟩
    | verified hreading hcount hparent hrows hbytes hwitness =>
      simp only [handedOut, List.append_nil] at hnext ⊢
      rw [hexpected] at hcount hrows hbytes hwitness
      exact ⟨hexpected, ⟨rows, hread.more call _⟩, fun _ => ⟨hcount, hbytes, hwitness,
        calls, call, [], rfl, hreading, by rw [hnext], hparent, hrows⟩⟩
    | advanced hreading htaken =>
      refine ⟨hexpected, hread.advance call htaken, fun hstate => ?_⟩
      cases hreading.symm.trans hstate

/-- A verified reader has handed out the rows below the promised count, a miss is answered
for good, and a bypass at any point of a batch leaves the reader where it was. -/
theorem manifest_reader_exact (manifest : RowSource σ ρ ι) (promised : Expected) (source : σ) :
    (∀ calls, (manifest.read promised source calls).1.state = .verified →
      (∃ rows, manifest.ReadUpTo source calls (manifest.read promised source calls).1
        (manifest.read promised source calls).2 rows) ∧
      manifest.Complete promised source calls (manifest.read promised source calls).1) ∧
    (∀ (reader : ManifestReader σ) (call later : BatchTxn × Tables) (miss : Miss),
      (manifest.nextBatch call.1 reader call.2).2 = .ok (.miss miss) →
      manifest.nextBatch later.1 (manifest.nextBatch call.1 reader call.2).1 later.2 =
        ((manifest.nextBatch call.1 reader call.2).1, do later.1.guarded; pure (.miss miss))) ∧
    ∀ (reader : ManifestReader σ) (call : BatchTxn × Tables) (bypass : Bypass),
      (manifest.nextBatch call.1 reader call.2).2 = .error bypass →
      (manifest.nextBatch call.1 reader call.2).1 = reader := by
  refine ⟨fun calls hstate => ?_, fun reader call later miss h => ?_,
    fun reader call bypass h => ?_⟩
  · obtain ⟨-, hread, hverified⟩ := manifest.read_spec promised source calls
    exact ⟨hread, hverified hstate⟩
  · have hstep := manifest.nextBatch_answers call.1 reader call.2
    generalize manifest.nextBatch call.1 reader call.2 = result at hstep h ⊢
    cases hstep with
    | bypassed | done | verified | advanced => cases h
    | missed hstate =>
      cases h
      exact manifest.nextBatch_of_failed later hstate
    | failed =>
      cases h
      exact manifest.nextBatch_of_failed later rfl
  · have hstep := manifest.nextBatch_answers call.1 reader call.2
    generalize manifest.nextBatch call.1 reader call.2 = result at hstep h ⊢
    cases hstep with
    | bypassed => rfl
    | done | missed | failed | verified | advanced => cases h

end RowSource

end Lint4d.Store
