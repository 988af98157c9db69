import Lint4d.Project.Overrides

/-!
# Reads under a budget

The questions that a read asks its budget depend on the file only.  So a budget
decides where a read stops, and nothing else.
-/

namespace Lint4d.Project

variable {C : Type}

/-- Reading with a budget is asking it `calls` in turn and then `outcome`. -/
def Asks {α : Type} (calls : List Call) (read : Option WorkBudget → Nat → Except String (α × Nat))
    (outcome : Except String α) : Prop :=
  ∀ budget asked, read budget asked = do
    let asked ← ask budget calls asked
    let value ← outcome
    pure (value, asked)

lemma ask_append (budget : Option WorkBudget) (calls others : List Call) (asked : Nat) :
    ask budget (calls ++ others) asked = ask budget calls asked >>= ask budget others := by
  induction calls generalizing asked with
  | nil => rfl
  | cons _ calls ih =>
    cases budget with
    | none => exact ih (asked + 1)
    | some budget =>
      simp only [List.cons_append, ask, bind_assoc]
      exact congrArg _ (funext fun _ => ih (asked + 1))

namespace Asks

variable {α β : Type} {calls others : List Call}

lemma ok (value : α) : Asks [] (fun _ asked => .ok (value, asked)) (.ok value) := fun _ _ => rfl

lemma error (error : String) :
    Asks [] (fun _ _ => (.error error : Except String (α × Nat))) (.error error) :=
  fun _ _ => rfl

variable {read : Option WorkBudget → Nat → Except String (α × Nat)}

lemma after_ask (calls : List Call) {outcome : Except String α} (h : Asks others read outcome) :
    Asks (calls ++ others) (fun budget asked => ask budget calls asked >>= read budget) outcome := by
  intro budget asked
  rw [ask_append, bind_assoc]
  exact congrArg _ (funext fun asked => h budget asked)

variable (next : α → Option WorkBudget → Nat → Except String (β × Nat))

lemma bind_ok {value : α} {outcome : Except String β} (h : Asks calls read (.ok value))
    (hnext : Asks others (next value) outcome) :
    Asks (calls ++ others)
      (fun budget asked => read budget asked >>= fun res => next res.1 budget res.2)
      outcome := by
  intro budget asked
  dsimp only
  rw [h budget asked, ask_append]
  cases ask budget calls asked with
  | error error => rfl
  | ok asked => exact hnext budget asked

lemma bind_error {error : String} (h : Asks calls read (.error error)) :
    Asks calls
      (fun budget asked => read budget asked >>= fun res => next res.1 budget res.2)
      (.error error) := by
  intro budget asked
  dsimp only
  rw [h budget asked]
  cases ask budget calls asked with
  | error error | ok asked => rfl

/-- What follows a read and asks nothing more. -/
lemma exists_then (h : ∃ outcome, Asks calls read outcome)
    (hnext : ∀ value, ∃ outcome, Asks [] (next value) outcome) :
    ∃ outcome, Asks calls
      (fun budget asked => read budget asked >>= fun res => next res.1 budget res.2)
      outcome := by
  obtain ⟨outcome, hout⟩ := h
  cases outcome with
  | error error => exact ⟨_, hout.bind_error next⟩
  | ok value =>
    obtain ⟨outcome, hnext⟩ := hnext value
    exact ⟨outcome, by simpa using hout.bind_ok next hnext⟩

end Asks

/-! The questions of a read depend on the file only. -/

/-- The budget calls of the read loop. -/
def chunkCalls : List (Except String (List UInt8)) → Nat → List Call
  | [], _ => [.checkCancelled]
  | read :: reads, remaining =>
    .checkCancelled :: if remaining = 0 then []
      else match read with
        | .error _ => []
        | .ok chunk =>
          let chunk := chunk.take (min remaining chunkBytes)
          if chunk = [] then []
          else .chargeFileBytes chunk.length :: chunkCalls reads (remaining - chunk.length)

def inspectCalls (file : FileView) : List Call :=
  match file.symlinkMetadata with
  | .found metadata =>
    if metadata.kind = .symlink then [.checkCancelled, .chargePathVisits 1] else []
  | _ => []

def openedCalls (file : FileView) (metadata : Metadata) : List Call :=
  if metadata.len > maxConfigBytes then []
  else match file.opened with
    | .error _ => []
    | .ok () =>
      [.checkCancelled, .chargePathVisits 1] ++ match file.openedMetadata with
        | .error _ => []
        | .ok openedMetadata =>
          if openedMetadata.kind = .regular then
            let readLimit := min metadata.len maxConfigBytes
            [.ensureFileReadFits (readLimit + 1), .checkCancelled] ++
              chunkCalls file.reads (readLimit + 1)
          else []

/-- The metadata a read goes on with. -/
def inspected (file : FileView) : Option Metadata :=
  match file.symlinkMetadata with
  | .found metadata =>
    if metadata.kind = .symlink then
      match file.metadata with
      | .ok metadata => if metadata.kind = .regular then some metadata else none
      | .error _ => none
    else if metadata.kind = .regular then some metadata
    else none
  | _ => none

/-- The budget calls of the read of one file. -/
def readCalls (file : FileView) : List Call :=
  [.checkCancelled, .chargePathVisits 1] ++ (inspectCalls file ++ match inspected file with
    | none => []
    | some metadata => openedCalls file metadata)

variable (path : Path)

/-- The read loop asks for `chunkCalls` and answers alike under every budget. -/
lemma exists_asks_readChunks (reads : List (Except String (List UInt8))) (rem : Nat)
    (bytes : List UInt8) :
    ∃ outcome, Asks (chunkCalls reads rem)
      (fun budget asked => readChunks path budget reads rem bytes asked) outcome := by
  induction reads generalizing rem bytes with
  | nil => exact ⟨_, Asks.after_ask [.checkCancelled] (Asks.ok bytes)⟩
  | cons read reads ih =>
    unfold readChunks chunkCalls
    by_cases hrem : rem = 0
    · simp only [hrem, if_true]
      exact ⟨_, Asks.after_ask [.checkCancelled] (Asks.ok bytes)⟩
    simp only [hrem, if_false]
    cases read with
    | error error => exact ⟨_, Asks.after_ask [.checkCancelled] (Asks.error _)⟩
    | ok chunk =>
      by_cases hchunk : chunk.take (min rem chunkBytes) = []
      · simp only [hchunk, if_true]
        exact ⟨_, Asks.after_ask [.checkCancelled] (Asks.ok bytes)⟩
      simp only [hchunk, if_false]
      obtain ⟨outcome, hout⟩ := ih (rem - (chunk.take (min rem chunkBytes)).length)
        (bytes ++ chunk.take (min rem chunkBytes))
      exact ⟨outcome, Asks.after_ask [.checkCancelled] (Asks.after_ask [.chargeFileBytes _] hout)⟩

lemma validateRegularFile_eq_ok_iff (metadata : Metadata) :
    validateRegularFile path metadata = .ok () ↔ metadata.kind = .regular := by
  unfold validateRegularFile
  split <;> simp_all

/-- A check that asks nothing, before the rest of a read. -/
lemma Asks.exists_after_check {α : Type} {calls : List Call} {check : Except String Unit}
    {read : Option WorkBudget → Nat → Except String (α × Nat)} {regular : Prop} [Decidable regular]
    (hcheck : check = .ok () ↔ regular) (h : ∃ outcome, Asks calls read outcome) :
    ∃ outcome, Asks (if regular then calls else [])
      (fun budget asked => check >>= fun _ => read budget asked) outcome := by
  cases check with
  | error error =>
    have hregular : ¬ regular := fun hregular => by cases hcheck.2 hregular
    rw [if_neg hregular]
    exact ⟨_, Asks.error error⟩
  | ok =>
    rw [if_pos (hcheck.1 rfl)]
    exact h

lemma exists_asks_readOpened (file : FileView) (metadata : Metadata) :
    ∃ outcome, Asks (openedCalls file metadata)
      (fun budget asked => readOpened path budget file metadata asked) outcome := by
  unfold readOpened openedCalls
  by_cases hlen : metadata.len > maxConfigBytes
  · simp only [hlen, if_true]
    exact ⟨_, Asks.error _⟩
  simp only [hlen, if_false]
  cases file.opened with
  | error error => exact ⟨_, Asks.error _⟩
  | ok =>
    cases file.openedMetadata with
    | error error => exact ⟨_, Asks.after_ask _ (Asks.error _)⟩
    | ok openedMetadata =>
      -- the length check after the loop asks nothing
      obtain ⟨read, hread⟩ := Asks.exists_then
        (fun bytes _ asked =>
          if bytes.length > min metadata.len maxConfigBytes then
            throw (path.display ++ " grew beyond its " ++
              toString (min metadata.len maxConfigBytes) ++ " byte read limit")
          else pure (bytes, asked))
        (exists_asks_readChunks path file.reads (min metadata.len maxConfigBytes + 1) [])
        fun bytes => by
          split
          · exact ⟨_, Asks.error _⟩
          · exact ⟨_, Asks.ok bytes⟩
      have hrest := Asks.after_ask
        [.ensureFileReadFits (min metadata.len maxConfigBytes + 1), .checkCancelled] hread
      obtain ⟨outcome, hout⟩ := Asks.exists_after_check
        (validateRegularFile_eq_ok_iff path openedMetadata) ⟨_, hrest⟩
      exact ⟨outcome, Asks.after_ask _ hout⟩

lemma asks_validated (metadata : Metadata) :
    ∃ outcome, Asks []
      (fun _ asked => do
        validateRegularFile path metadata
        pure (some metadata, asked)) outcome ∧
      outcome.toOption = if metadata.kind = .regular then some (some metadata) else none := by
  have hiff := validateRegularFile_eq_ok_iff path metadata
  cases hcheck : validateRegularFile path metadata with
  | error error =>
    have hregular : ¬ metadata.kind = .regular := fun h => by simp [hcheck, h] at hiff
    exact ⟨.error error, Asks.error error, by simp [hregular, Except.toOption]⟩
  | ok => exact ⟨.ok (some metadata), Asks.ok _, by simp [hiff.1 hcheck, Except.toOption]⟩

/-- An inspection asks for `inspectCalls`, and finds what `inspected` says. -/
lemma exists_asks_inspectCandidate (file : FileView) :
    ∃ outcome, Asks (inspectCalls file)
      (fun budget asked => inspectCandidate path budget file asked) outcome ∧
      outcome.toOption.join = inspected file := by
  unfold inspectCandidate inspectCalls inspected
  cases file.symlinkMetadata with
  | notFound => exact ⟨_, Asks.ok none, rfl⟩
  | failed error => exact ⟨_, Asks.error _, rfl⟩
  | found metadata =>
    by_cases hlink : metadata.kind = .symlink
    · simp only [hlink, if_true]
      cases file.metadata with
      | error error => exact ⟨_, Asks.after_ask _ (Asks.error _), rfl⟩
      | ok target =>
        obtain ⟨outcome, hasks, hout⟩ := asks_validated path target
        refine ⟨outcome, Asks.after_ask _ hasks, ?_⟩
        dsimp only
        rw [hout]
        split <;> rfl
    · simp only [hlink, if_false]
      obtain ⟨outcome, hasks, hout⟩ := asks_validated path metadata
      refine ⟨outcome, hasks, ?_⟩
      rw [hout]
      split <;> rfl

/-- A budget decides only where a read stops. -/
lemma exists_asks_readBytes (path : Path) (file : FileView) :
    ∃ outcome, Asks (readCalls file) (fun budget asked => readBytes path budget file asked)
      outcome := by
  obtain ⟨inspection, hasks, hinspection⟩ := exists_asks_inspectCandidate path file
  unfold readCalls
  rw [← hinspection]
  -- what is read depends on the inspected metadata only
  let next : Option Metadata → Option WorkBudget → Nat → Except String (Option (List UInt8) × Nat) :=
    fun metadata budget asked =>
      match metadata with
      | none => pure (none, asked)
      | some metadata => do
        let read ← readOpened path budget file metadata asked
        pure (some read.1, read.2)
  cases inspection with
  | error error =>
    refine ⟨.error error, Asks.after_ask _ ?_⟩
    change Asks (inspectCalls file ++ []) _ _
    rw [List.append_nil]
    exact hasks.bind_error next
  | ok metadata =>
    cases metadata with
    | none =>
      refine ⟨.ok none, Asks.after_ask _ ?_⟩
      exact hasks.bind_ok next (Asks.ok none)
    | some metadata =>
      obtain ⟨outcome, hout⟩ := Asks.exists_then
        (fun bytes _ asked => pure (some bytes, asked)) (exists_asks_readOpened path file metadata)
        fun bytes => ⟨_, Asks.ok (some bytes)⟩
      refine ⟨outcome, Asks.after_ask _ ?_⟩
      exact hasks.bind_ok next hout

lemma ask_none (calls : List Call) (asked : Nat) :
    ask none calls asked = .ok (asked + calls.length) := by
  induction calls generalizing asked with
  | nil => rfl
  | cons _ calls ih =>
    have hrest := ih (asked + 1)
    rw [List.length_cons, Nat.add_comm calls.length, ← Nat.add_assoc, ← hrest]
    rfl

/-- The error of a read is an answer of the budget or the error of the file alone. -/
lemma readOverrideFile_eq_error_iff (host : Host C) (path : Path) (budget : Option WorkBudget)
    (file : FileView) (asked : Nat) (error : String) :
    (readOverrideFileWithStampAndBudget host path budget file asked).1 = .error error ↔
      match ask budget (readCalls file) asked with
      | .error refused => refused = error
      | .ok _ => (readOverrideFileWithStampAndBudget host path none file 0).1 = .error error := by
  obtain ⟨outcome, hout⟩ := exists_asks_readBytes path file
  have hbudget : readBytes path budget file asked = _ := hout budget asked
  have hnone : readBytes path none file 0 = _ := hout none 0
  unfold readOverrideFileWithStampAndBudget
  rw [hbudget, hnone, ask_none]
  cases ask budget (readCalls file) asked with
  | error refused => simp [bind, Except.bind]
  | ok asked =>
    cases outcome with
    | error failure => rfl
    | ok bytes =>
      cases bytes with
      | none => simp [pure, bind, Except.pure, Except.bind]
      | some bytes =>
        cases hparse : host.parse path bytes with
        | error failure | ok content =>
          simp [pure, bind, Except.pure, Except.bind, Except.map, hparse]

end Lint4d.Project
