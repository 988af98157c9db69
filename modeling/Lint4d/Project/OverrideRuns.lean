import Lint4d.Project.OverrideReads

/-!
# Runs of the override session

What a session has captured, against the log of what its reads came to.  A read
that its budget cut short says nothing about the file; the log keeps it apart
from the reads that came to an end.  A refresh keeps the last completed result
in that case.  A budgeted lookup does not: it stores the interruption as the
captured result of the path, and later lookups answer with it.
-/

namespace Lint4d.Project

open OverrideSession Project.Path List

variable {C : Type}

/-! ## The log -/

/-- What happened to a path. -/
inductive Event (C : Type) where
  | completed (path : Path) (result : CapturedLayer C)
  | removed (path : Path)
  | interrupted (path : Path) (error : String)

/-- What is known of the paths after an event.  An interrupted read tells nothing. -/
def settle (known : Path → Option (CapturedLayer C)) :
    Event C → Path → Option (CapturedLayer C)
  | .completed path result => Function.update known path (some result)
  | .removed path => Function.update known path (some (.ok none))
  | .interrupted _ _ => known

/-- The result of the last completed read or removal of each path. -/
def lastCompleted (log : List (Event C)) : Path → Option (CapturedLayer C) :=
  log.foldl settle fun _ => none

def isTransient (budget : Option WorkBudget) (error : String) : Bool :=
  budget.any (·.isTransientError error)

variable {session : OverrideSession C} {paths : List Path}

section Host

variable (host : Host C)
  {asked : Nat} {error : String} {file : FileView} {stamp : Option ConfigurationSourceStamp}
  {other : Path} {files : Path → FileView}

def readEvent (path : Path) (budget : Option WorkBudget) (file : FileView) (asked : Nat) :
    Event C :=
  match (readOverrideFileWithStampAndBudget host path budget file asked).1 with
  | .ok (layer, _) => .completed path (.ok layer)
  | .error error =>
    if isTransient budget error then .interrupted path error else .completed path (.error error)

namespace OverrideSession

/-- A path that was never captured, or is dirty. -/
def needsRead (session : OverrideSession C) (path : Path) : Bool :=
  session.dirty path || (session.captured path).isNone

def captureEvents (session : OverrideSession C) (path : Path) (budget : Option WorkBudget)
    (files : Path → FileView) (asked : Nat) : List (Event C) :=
  match normalizeAbsoluteLexical host path with
  | .error _ => []
  | .ok path =>
    match ask budget [.checkCancelled, .chargePathVisits 1] asked with
    | .error _ => []
    | .ok asked =>
      if session.needsRead path then [readEvent host path budget (files path) asked] else []

def layersEvents (budget : Option WorkBudget) (charges : List Call) (files : Path → FileView)
    (session : OverrideSession C) : List Path → Nat → List (Event C)
  | [], _ => []
  | path :: paths, asked =>
    match ask budget charges asked with
    | .error _ => []
    | .ok asked =>
      session.captureEvents host path budget files asked ++
        match session.capturePathWithWorkBudget host path budget files asked with
        | (.error _, _) => []
        | (.ok asked, session) =>
          match session.capturedLayer path with
          | .ok (.ok _) => layersEvents budget charges files session paths asked
          | _ => []

end OverrideSession

/-- The operations on a session. -/
inductive Operation where
  | capturePath (path : Path) (budget : Option WorkBudget) (files : Path → FileView)
  | captureWorkspace (root : Path) (files : Path → FileView)
  | effectiveFor (workspaceRoot projectDirectory : Option Path) (files : Path → FileView)
  | configurationFor (workspaceRoot projectFile : Option Path) (budget : Option WorkBudget)
      (files : Path → FileView)
  | refreshPath (path : Path) (budget : WorkBudget) (files : Path → FileView)
  | removePath (path : Path)
  | markAllDirty

namespace Operation

def apply (session : OverrideSession C) : Operation → OverrideSession C
  | capturePath path budget files => (session.capturePathWithWorkBudget host path budget files 0).2
  | captureWorkspace root files => (session.captureWorkspace host root files).2
  | effectiveFor workspaceRoot projectDirectory files =>
    (session.effectiveFor host workspaceRoot projectDirectory files).2
  | configurationFor workspaceRoot projectFile budget files =>
    (session.configurationForWithWorkBudget host workspaceRoot projectFile budget files).2
  | refreshPath path budget files => (session.refreshPathWithBudget host path budget files).2
  | removePath path => (session.removePath host path).2
  | markAllDirty => session.markAllDirty

end Operation

/-! ## Captures -/

lemma exists_reply_of_ask {budget : Option WorkBudget} {calls : List Call}
    (h : ask budget calls asked = .error error) :
    ∃ granted, budget = some granted ∧ ∃ asked call, granted.reply asked call = .error error := by
  induction calls generalizing asked with
  | nil => cases h
  | cons call calls ih =>
    cases budget with
    | none => exact ih (show ask none calls (asked + 1) = _ from h)
    | some granted =>
      cases hreply : granted.reply asked call with
      | error =>
        simp only [ask, hreply, bind, Except.bind, Except.error.injEq] at h
        exact ⟨granted, rfl, asked, call, h ▸ hreply⟩
      | ok =>
        simp only [ask, hreply, bind, Except.bind] at h
        exact ih h

namespace OverrideSession

variable {host} {session : OverrideSession C} {path : Path} {budget : Option WorkBudget}
  {files : Path → FileView} {asked : Nat}

variable (host session path budget files asked) in
/-- What a capture does, with the events it logs. -/
inductive Captures : List (Event C) → Except String Nat × OverrideSession C → Prop where
  | unresolved {error : String} (h : normalizeAbsoluteLexical host path = .error error) :
      Captures [] (.error error, session)
  | refused {error : String}
      (h : ∃ granted, budget = some granted ∧ ∃ asked call, granted.reply asked call = .error error) :
      Captures [] (.error error, session)
  | known {normalized result next} (hpath : normalizeAbsoluteLexical host path = .ok normalized)
      (hresult : session.captured normalized = some result) :
      Captures [] (result.map fun _ => next, session)
  | read {normalized next result stamp}
      (hpath : normalizeAbsoluteLexical host path = .ok normalized)
      (hasked : ask budget [.checkCancelled, .chargePathVisits 1] asked = .ok next)
      (hneeds : session.needsRead normalized)
      (hread : readOverrideFileWithStampAndBudget host normalized budget (files normalized) next =
        (result, stamp)) : Captures [readEvent host normalized budget (files normalized) next]
        (result.map Prod.snd, session.store normalized (result.map Prod.fst) stamp)

variable (host session path budget files asked) in
lemma captures : Captures host session path budget files asked
      (session.captureEvents host path budget files asked)
      (session.capturePathWithWorkBudget host path budget files asked) := by
  unfold captureEvents capturePathWithWorkBudget
  cases hpath : normalizeAbsoluteLexical host path with
  | error error => exact .unresolved hpath
  | ok norm =>
    cases hasked : ask budget [.checkCancelled, .chargePathVisits 1] asked with
    | error error => exact .refused (exists_reply_of_ask hasked)
    | ok next =>
      dsimp only
      cases hdirty : session.dirty norm with
      | true =>
        have hneeds : session.needsRead norm := by simp [needsRead, hdirty]
        rw [if_pos hneeds]
        exact .read hpath hasked hneeds rfl
      | false =>
        cases hcapt : session.captured norm with
        | none =>
          have hneeds : session.needsRead norm := by simp [needsRead, hcapt]
          rw [if_pos hneeds]
          exact .read hpath hasked hneeds rfl
        | some result =>
          have hneeds : ¬ session.needsRead norm := by simp [needsRead, hdirty, hcapt]
          rw [if_neg hneeds]
          have hknown : Captures host session path budget files asked []
              (result.map fun _ => next, session) := .known hpath hcapt
          cases result with
          | error error | ok layer => exact hknown

lemma settle_readEvent (known : Path → Option (CapturedLayer C))
    {result : Except String (Option (ConfigurationLayer C) × Nat)}
    (hread : readOverrideFileWithStampAndBudget host path budget file asked = (result, stamp)) :
    settle known (readEvent host path budget file asked) =
        Function.update known path (some (result.map Prod.fst)) ∨
      ∃ error, result = .error error ∧ isTransient budget error = true ∧
        readEvent host path budget file asked = .interrupted path error := by
  unfold readEvent
  rw [hread]
  cases result with
  | ok => exact .inl rfl
  | error error =>
    by_cases htrans : isTransient budget error = true
    · exact .inr ⟨error, rfl, htrans, by simp [htrans]⟩
    · refine .inl ?_
      simp only [htrans]
      rfl

variable {result : Except String Nat × OverrideSession C} {events : List (Event C)}

/-- A capture that succeeds has captured what its events say. -/
lemma Captures.ok (h : Captures host session path budget files asked events result) {next : Nat}
    (hok : result.1 = .ok next) :
    result.2.captured = events.foldl settle session.captured ∧
      ∃ norm layer, normalizeAbsoluteLexical host path = .ok norm ∧
        result.2.captured norm = some (.ok layer) := by
  cases h with
  | unresolved | refused _ => cases hok
  | @known norm result _ hpath hcapt =>
    cases result with
    | error error => cases hok
    | ok layer => exact ⟨rfl, norm, layer, hpath, hcapt⟩
  | @read norm _ result _ hpath _ _ hread =>
    rcases settle_readEvent session.captured hread with hsettle | ⟨error, rfl, -, -⟩
    · refine ⟨by simp only [foldl_cons, foldl_nil, hsettle, store], norm, ?_⟩
      cases result with
      | error error => cases hok
      | ok layer => exact ⟨layer.1, hpath, by simp [store, Except.map]⟩
    · cases hok

/-- A capture touches its own path only. -/
lemma Captures.captured_of_ne (h : Captures host session path budget files asked events result)
    (hother : normalizeAbsoluteLexical host path ≠ .ok other) :
    result.2.captured other = session.captured other := by
  cases h with
  | unresolved | refused _ | known _ _ => rfl
  | read hpath =>
    refine Function.update_of_ne ?_ _ _
    exact fun heq => hother (heq ▸ hpath)

end OverrideSession

/-! ## Budgets that let reads through -/

/-- Neither an answer of the budget to the questions of the read, nor what the file
comes to without a budget, is an error that the budget calls transient. -/
def ReadGranted (path : Path) (budget : Option WorkBudget) (file : FileView) (asked : Nat) : Prop :=
  match ask budget (readCalls file) asked with
  | .error refused => isTransient budget refused = false
  | .ok _ => ∀ error, (readOverrideFileWithStampAndBudget host path none file 0).1 = .error error →
      isTransient budget error = false

namespace OverrideSession

def CaptureGranted (session : OverrideSession C) (path : Path) (budget : Option WorkBudget)
    (files : Path → FileView) (asked : Nat) : Prop :=
  ∀ normalized next, normalizeAbsoluteLexical host path = .ok normalized →
    ask budget [.checkCancelled, .chargePathVisits 1] asked = .ok next →
    session.needsRead normalized → ReadGranted host normalized budget (files normalized) next

def LayersGranted (budget : Option WorkBudget) (charges : List Call) (files : Path → FileView)
    (session : OverrideSession C) : List Path → Nat → Prop
  | [], _ => True
  | path :: paths, asked =>
    ∀ next, ask budget charges asked = .ok next →
      session.CaptureGranted host path budget files next ∧
        ∀ last after, session.capturePathWithWorkBudget host path budget files next =
          (.ok last, after) → LayersGranted budget charges files after paths last

variable {host} {session : OverrideSession C} {path : Path} {budget : Option WorkBudget}
  {charges : List Call} {files : Path → FileView} {asked : Nat}

lemma not_interrupted (h : ReadGranted host path budget file asked)
    (hread : readOverrideFileWithStampAndBudget host path budget file asked =
      (.error error, stamp)) : isTransient budget error = false := by
  have hiff := (readOverrideFile_eq_error_iff host path budget file asked error).1 (by rw [hread])
  unfold ReadGranted at h
  cases hask : ask budget (readCalls file) asked with
  | error =>
    simp only [hask] at h hiff
    exact hiff ▸ h
  | ok =>
    simp only [hask] at h hiff
    exact h error hiff

/-- What is captured afterwards is what the events say. -/
structure Follows (session : OverrideSession C) (events : List (Event C))
    (after : OverrideSession C) : Prop where
  captured : after.captured = events.foldl settle session.captured
  userConfigFile : after.userConfigFile = session.userConfigFile

variable {result : Except String Nat × OverrideSession C} {events : List (Event C)}

lemma Captures.follows (h : Captures host session path budget files asked events result)
    (hgranted : session.CaptureGranted host path budget files asked) :
    Follows session events result.2 := by
  cases h with
  | unresolved | refused _ | known _ _ => exact ⟨rfl, rfl⟩
  | read hpath hasked hneeds hread =>
    refine ⟨?_, rfl⟩
    rcases settle_readEvent session.captured hread with hsettle | ⟨_, rfl, htrans, -⟩
    · simp only [foldl_cons, foldl_nil, hsettle, store]
    · rw [not_interrupted (hgranted _ _ hpath hasked hneeds) hread] at htrans
      cases htrans

/-- Without a budget nothing is interrupted. -/
lemma captureGranted_none : session.CaptureGranted host path none files asked := by
  intro norm next hpath hasked hneeds
  unfold ReadGranted
  rw [ask_none]
  intro error herror
  rfl

/-! ## Lookups -/

/-- A path under which its own capture is found. -/
def Normal (host : Host C) (path : Path) : Prop :=
  ∀ normalized, normalizeAbsoluteLexical host path = .ok normalized → normalized = path

/-- What the error of a lookup may be: a path does not resolve, the budget of this very
lookup refused or interrupted it, or it is the outcome of a completed read. -/
def Explained (host : Host C) (paths : List Path) (budget : Option WorkBudget)
    (own : List (Event C)) (known : Path → Option (CapturedLayer C)) (error : String) : Prop :=
  (∃ path ∈ paths, normalizeAbsoluteLexical host path = .error error) ∨
  (∃ granted, budget = some granted ∧ ∃ asked call, granted.reply asked call = .error error) ∨
  (∃ path, .interrupted path error ∈ own) ∨
  ∃ path ∈ paths, ∃ normalized, normalizeAbsoluteLexical host path = .ok normalized ∧
    known normalized = some (.error error)

lemma Explained.mono {more : List Path} {own others : List (Event C)}
    {known : Path → Option (CapturedLayer C)} (h : Explained host paths budget own known error)
    (hpaths : paths ⊆ more)
    (hown : own ⊆ others) : Explained host more budget others known error := by
  rcases h with ⟨path, hmem, hpath⟩ | hreply | ⟨path, hevent⟩ | ⟨path, hmem, hknown⟩
  · exact .inl ⟨path, hpaths hmem, hpath⟩
  · exact .inr (.inl hreply)
  · exact .inr (.inr (.inl ⟨path, hown hevent⟩))
  · exact .inr (.inr (.inr ⟨path, hpaths hmem, hknown⟩))

/-- Where the error of a capture comes from. -/
lemma Captures.explained (h : Captures host session path budget files asked events result)
    (herror : result.1 = .error error) :
    Explained host [path] budget events (events.foldl settle session.captured) error := by
  cases h with
  | unresolved hpath =>
    cases herror
    exact .inl ⟨path, by simp, hpath⟩
  | refused hreply =>
    cases herror
    exact .inr (.inl hreply)
  | @known norm result _ hpath hcapt =>
    cases result with
    | ok layer => cases herror
    | error failure =>
      cases herror
      exact .inr (.inr (.inr ⟨path, by simp, norm, hpath, hcapt⟩))
  | @read norm _ result _ hpath _ _ hread =>
    cases result with
    | ok layer => cases herror
    | error failure =>
      cases herror
      rcases settle_readEvent session.captured hread with hsettle | ⟨error, heq, -, hevent⟩
      · refine .inr (.inr (.inr ⟨path, by simp, norm, hpath, ?_⟩))
        simp [hsettle, Except.map]
      · cases heq
        exact .inr (.inr (.inl ⟨norm, by simp [hevent]⟩))

section Layers

variable (host budget charges files) in
/-- What a lookup does with its paths, with the events it logs. -/
inductive Layers : OverrideSession C → List Path → Nat → List (Event C) →
    Except String (List (Option (ConfigurationLayer C))) × OverrideSession C → Prop where
  | nil (session : OverrideSession C) (asked : Nat) : Layers session [] asked [] (.ok [], session)
  | refused {session : OverrideSession C} {path paths asked error}
      (hask : ask budget charges asked = .error error) :
      Layers session (path :: paths) asked [] (.error error, session)
  | failed {session after path paths asked next error} (hask : ask budget charges asked = .ok next)
      (hcapture : session.capturePathWithWorkBudget host path budget files next =
        (.error error, after)) :
      Layers session (path :: paths) asked (session.captureEvents host path budget files next)
        (.error error, after)
  | cons {session after path paths asked next last layer events result}
      (hask : ask budget charges asked = .ok next)
      (hcapture : session.capturePathWithWorkBudget host path budget files next = (.ok last, after))
      (hlayer : after.captured path = some (.ok layer))
      (hrest : Layers after paths last events result) : Layers session (path :: paths) asked
        (session.captureEvents host path budget files next ++ events)
        (result.1.map (layer :: ·), result.2)

lemma captures_of_eq (h : session.capturePathWithWorkBudget host path budget files asked = result) :
    Captures host session path budget files asked
      (session.captureEvents host path budget files asked) result :=
  h ▸ captures host session path budget files asked

lemma layers (budget : Option WorkBudget) (charges : List Call) (files : Path → FileView)
    (session : OverrideSession C) (asked : Nat) (hnormal : ∀ path ∈ paths, Normal host path) :
    Layers host budget charges files session paths asked
      (layersEvents host budget charges files session paths asked)
      (captureLayers host budget charges files session paths asked) := by
  induction paths generalizing session asked with
  | nil => exact .nil session asked
  | cons path paths ih =>
    rw [captureLayers, layersEvents]
    cases hask : ask budget charges asked with
    | error error => exact .refused hask
    | ok next =>
      rcases hcapture : session.capturePathWithWorkBudget host path budget files next with
        ⟨error | _, _⟩
      · simp only [hcapture, append_nil]
        exact .failed hask hcapture
      · obtain ⟨-, norm, _, hpath, hlayer⟩ := (captures_of_eq hcapture).ok rfl
        -- the lookup reads under the path what the capture has stored under the normal one
        rw [hnormal path (by simp) norm hpath] at hlayer
        dsimp only at hlayer
        simp only [hcapture, capturedLayer, hlayer]
        exact .cons hask hcapture hlayer (ih _ _ (forall_mem_cons.1 hnormal).2)

variable {layers : Except String (List (Option (ConfigurationLayer C))) × OverrideSession C}
  (h : Layers host budget charges files session paths asked events layers)

include h

lemma Layers.captured_of_notMem (hnormal : ∀ path ∈ paths, Normal host path)
    (hother : other ∉ paths) :
    layers.2.captured other = session.captured other := by
  have hne : ∀ path ∈ paths, normalizeAbsoluteLexical host path ≠ .ok other :=
    fun path hmem h => hother (hnormal path hmem other h ▸ hmem)
  clear hnormal hother
  induction h with
  | nil session | refused hask => rfl
  | failed hask hcapture => exact (captures_of_eq hcapture).captured_of_ne (hne _ (by simp))
  | cons hask hcapture _ _ ih =>
    rw [ih (forall_mem_cons.1 hne).2]
    exact (captures_of_eq hcapture).captured_of_ne (hne _ (by simp))

/-- The answer of a lookup, against what is known after it. -/
def Answered (host : Host C) (paths : List Path) (budget : Option WorkBudget)
    (own : List (Event C)) (known : Path → Option (CapturedLayer C)) :
    Except String (List (Option (ConfigurationLayer C))) → Prop
  | .ok layers => List.Forall₂ (fun path layer => known path = some (.ok layer)) paths layers
  | .error error => Explained host paths budget own known error

lemma Layers.answered (hnormal : ∀ path ∈ paths, Normal host path) (hnodup : paths.Nodup) :
    Answered host paths budget events (events.foldl settle session.captured) layers.1 ∧
      (layers.1.isOk → layers.2.captured = events.foldl settle session.captured) := by
  induction h with
  | nil session => exact ⟨.nil, fun _ => rfl⟩
  | refused hask => exact ⟨.inr (.inl (exists_reply_of_ask hask)), fun h => by cases h⟩
  | failed hask hcapture =>
    have hexpl := (captures_of_eq hcapture).explained rfl
    exact ⟨hexpl.mono (by simp) (List.Subset.refl _), fun h => by cases h⟩
  | @cons _ _ _ _ _ _ _ _ _ rest hask hcapture hlayer hrest ih =>
    obtain ⟨hcapt, -⟩ := (captures_of_eq hcapture).ok rfl
    have hnormals := (forall_mem_cons.1 hnormal).2
    obtain ⟨hans, hknown⟩ := ih hnormals hnodup.of_cons
    have hhead := hrest.captured_of_notMem hnormals (nodup_cons.1 hnodup).1
    rw [foldl_append, ← hcapt]
    obtain ⟨_ | _, _⟩ := rest
    · exact ⟨Explained.mono hans (by simp) (by simp), fun h => by cases h⟩
    · have hafter := hknown rfl
      refine ⟨.cons ?_ hans, fun _ => hafter⟩
      rw [← hafter, hhead, hlayer]

lemma Layers.follows (hgranted : LayersGranted host budget charges files session paths asked) :
    Follows session events layers.2 := by
  induction h with
  | nil session asked | refused hask => exact ⟨rfl, rfl⟩
  | failed hask hcapture => exact (captures_of_eq hcapture).follows (hgranted _ hask).1
  | cons hask hcapture _ _ ih =>
    obtain ⟨hfirst, hothers⟩ := hgranted _ hask
    have hcapt := (captures_of_eq hcapture).follows hfirst
    have hafter := ih (hothers _ _ hcapture)
    refine ⟨?_, hafter.userConfigFile.trans hcapt.userConfigFile⟩
    rw [foldl_append, ← hcapt.captured]
    exact hafter.captured

end Layers

/-! ## The paths of a lookup -/

/-- Names, behind the root or not. -/
def lexical (root : Bool) (names : List String) : Path :=
  (if root then [.rootDir] else []) ++ names.map .normal

lemma pushComponent_lexical (root : Bool) (names : List String) (component : Component) :
    ∃ root' names', pushComponent (lexical root names) component = lexical root' names' ∧
      (root = true → root' = true) := by
  cases component with
  | rootDir => exact ⟨true, [], rfl, fun _ => rfl⟩
  | curDir => exact ⟨root, names, rfl, id⟩
  | normal name => exact ⟨root, names ++ [name], by simp [lexical, pushComponent, push], id⟩
  | parentDir =>
    refine ⟨root, names.dropLast, ?_, id⟩
    rcases eq_nil_or_concat names with rfl | ⟨_, _, rfl⟩
    · cases root <;> rfl
    · simp only [lexical, pushComponent, parent, concat_eq_append, map_append, map_singleton,
        ← append_assoc, getLast?_concat, dropLast_concat, Option.getD_some]

lemma foldl_pushComponent_lexical (path : Path) (root : Bool) (names : List String) :
    ∃ root' names', path.foldl pushComponent (lexical root names) = lexical root' names' := by
  induction path generalizing root names with
  | nil => exact ⟨root, names, rfl⟩
  | cons component path ih =>
    obtain ⟨root', names', hpushed, -⟩ := pushComponent_lexical root names component
    rw [foldl_cons, hpushed]
    exact ih root' names'

lemma exists_rooted {norm : Path} (h : normalizeAbsoluteLexical host path = .ok norm) :
    ∃ names, norm = rooted names := by
  simp only [normalizeAbsoluteLexical, Lib.bind_ok_iff] at h
  obtain ⟨absolute, -, h⟩ := h
  split at h
  · rename_i habsolute
    obtain rfl := Lib.pure_ok_iff.1 h
    obtain ⟨root, names, hnames⟩ := foldl_pushComponent_lexical absolute false []
    rw [show absolute.foldl pushComponent [] = _ from hnames] at habsolute ⊢
    cases root with
    | true => exact ⟨names, rfl⟩
    | false => cases names <;> simp [lexical, isAbsolute] at habsolute
  · exact (Lib.throw_ok_iff.1 h).elim

lemma foldl_pushComponent_map (front : Path) (names : List String) :
    (names.map Component.normal).foldl pushComponent front = front ++ names.map .normal := by
  induction names generalizing front with
  | nil => simp
  | cons _ names ih =>
    rw [map_cons, foldl_cons, ih]
    simp [pushComponent, push]

lemma normalize_rooted (names : List String) :
    normalizeAbsoluteLexical host (rooted names) = .ok (rooted names) := by
  have hfold : (rooted names).foldl pushComponent [] = rooted names := by
    simp [rooted, foldl_pushComponent_map, pushComponent, push]
  simp only [normalizeAbsoluteLexical, host.absolute_rooted, bind, Except.bind, hfold]
  rfl

lemma normal_rooted (names : List String) : Normal host (rooted names) := by
  intro norm h
  rw [normalize_rooted] at h
  cases h
  rfl

lemma normal_userConfigPath : Normal host (userConfigPath host path) := by
  unfold userConfigPath
  split
  · rename_i norm h
    obtain ⟨names, rfl⟩ := exists_rooted h
    exact normal_rooted names
  · rename_i h
    intro norm hnorm
    rw [h] at hnorm
    cases hnorm

lemma nodup_pushUniquePath (h : paths.Nodup) (path : Path) : (pushUniquePath paths path).Nodup := by
  unfold pushUniquePath
  split
  · exact h
  · rename_i hnotMem
    exact nodup_append.2 ⟨h, by simp, fun other hother last hlast =>
      fun heq => hnotMem (by simp_all)⟩

/-- A directory that resolves is a rooted path. -/
def RootedIfResolved (directory : Option (Except String Path)) : Prop :=
  ∀ result ∈ directory, ∀ path, result = .ok path → ∃ names, path = rooted names

lemma pushConfig_spec {pushed : List Path} {dir : Option (Except String Path)}
    (h : pushConfig paths dir = .ok pushed) (hdir : RootedIfResolved dir)
    (hnormal : ∀ path ∈ paths, Normal host path) (hnodup : paths.Nodup) :
    (∀ path ∈ pushed, Normal host path) ∧ pushed.Nodup := by
  cases dir with
  | none =>
    cases h
    exact ⟨hnormal, hnodup⟩
  | some dir =>
    cases dir with
    | error error => cases h
    | ok path =>
      obtain ⟨names, rfl⟩ := hdir _ rfl path rfl
      obtain rfl := Lib.pure_ok_iff.1 h
      refine ⟨fun other hother => ?_, nodup_pushUniquePath hnodup _⟩
      unfold pushUniquePath at hother
      split at hother
      · exact hnormal other hother
      · rcases mem_append.1 hother with hother | hother
        · exact hnormal other hother
        · have heq : other = rooted (names ++ [localConfigName]) := by
            simpa [join, rooted] using hother
          rw [heq]
          exact normal_rooted _

lemma lookupPaths_spec {workspaceRoot projectDirectory : Option (Except String Path)}
    (h : session.lookupPaths workspaceRoot projectDirectory = .ok paths)
    (hworkspace : RootedIfResolved workspaceRoot) (hproject : RootedIfResolved projectDirectory)
    (huser : ∀ path ∈ session.userConfigFile, Normal host path) :
    (∀ path ∈ paths, Normal host path) ∧ paths.Nodup := by
  simp only [lookupPaths, Lib.bind_ok_iff] at h
  obtain ⟨_, hpushed, h⟩ := h
  have hstart : (∀ path ∈ session.userConfigFile.toList, Normal host path) ∧
      session.userConfigFile.toList.Nodup := by
    cases hfile : session.userConfigFile with
    | none => simp
    | some file => simpa using huser file hfile
  obtain ⟨hnormal, hnodup⟩ := pushConfig_spec hpushed hworkspace hstart.1 hstart.2
  exact pushConfig_spec h hproject hnormal hnodup

lemma rooted_of_normalize {dir : Option Path} :
    RootedIfResolved (dir.map (normalizeAbsoluteLexical host)) := by
  intro result hres path hpath
  obtain ⟨_, -, rfl⟩ := Option.map_eq_some_iff.1 hres
  exact exists_rooted hpath

lemma rooted_of_projectDirectory {file : Option Path} :
    RootedIfResolved (file.map (projectDirectory host)) := by
  intro result hres path hpath
  obtain ⟨_, -, rfl⟩ := Option.map_eq_some_iff.1 hres
  simp only [projectDirectory, Lib.bind_ok_iff] at hpath
  obtain ⟨_, hnorm, hpath⟩ := hpath
  obtain ⟨names, rfl⟩ := exists_rooted hnorm
  obtain rfl := Lib.pure_ok_iff.1 hpath
  -- the parent of a rooted path is what `..` makes of it
  obtain ⟨_, names', hpar, hroot⟩ := pushComponent_lexical true names .parentDir
  rw [hroot rfl] at hpar
  exact ⟨names', hpar⟩

end OverrideSession

/-! ## Runs -/

namespace Operation

/-- The events an operation logs. -/
def events (session : OverrideSession C) : Operation → List (Event C)
  | capturePath path budget files => session.captureEvents host path budget files 0
  | captureWorkspace root files =>
    match normalizeAbsoluteLexical host root with
    | .error _ => []
    | .ok root => session.captureEvents host (root.join localConfigName) none files 0
  | effectiveFor workspaceRoot projectDirectory files =>
    match session.effectivePaths host workspaceRoot projectDirectory with
    | .error _ => []
    | .ok paths => layersEvents host none [] files session paths 0
  | configurationFor workspaceRoot projectFile budget files =>
    match session.configurationPaths host workspaceRoot projectFile with
    | .error _ => []
    | .ok paths =>
      layersEvents host budget [.checkCancelled, .chargePathVisits 1] files session paths 0
  | refreshPath path budget files =>
    match normalizeAbsoluteLexical host path with
    | .error _ => []
    | .ok path => [readEvent host path (some budget) (files path) 0]
  | removePath path =>
    match normalizeAbsoluteLexical host path with
    | .error _ => []
    | .ok path => [.removed path]
  | markAllDirty => []

/-- The budget of an operation that captures grants the reads it makes. -/
def Granted (session : OverrideSession C) : Operation → Prop
  | capturePath path budget files => session.CaptureGranted host path budget files 0
  | configurationFor workspaceRoot projectFile budget files =>
    ∀ paths, session.configurationPaths host workspaceRoot projectFile = .ok paths →
      LayersGranted host budget [.checkCancelled, .chargePathVisits 1] files session paths 0
  | _ => True

end Operation

def newEvents (userConfigFile : Option Path) (files : Path → FileView) : List (Event C) :=
  let session := fresh (userConfigFile.map (userConfigPath host))
  match session.userConfigFile with
  | none => []
  | some path => session.captureEvents host path none files 0

/-- The session and its log after a sequence of operations. -/
def run (userConfigFile : Option Path) (files : Path → FileView) (operations : List Operation) :
    OverrideSession C × List (Event C) :=
  operations.foldl
    (fun state operation =>
      (operation.apply host state.1, state.2 ++ operation.events host state.1))
    (new host userConfigFile files, newEvents host userConfigFile files)

/-- Every operation of a sequence is granted where it is made. -/
def RunGranted : OverrideSession C → List Operation → Prop
  | _, [] => True
  | session, operation :: operations =>
    operation.Granted host session ∧ RunGranted (operation.apply host session) operations

/-- The session answers from completed reads and removals only. -/
structure Remembers (session : OverrideSession C) (log : List (Event C)) : Prop where
  captured : session.captured = lastCompleted log
  capture : ∀ path budget files error,
    (session.capturePathWithWorkBudget host path budget files 0).1 = .error error →
      let own := (Operation.capturePath path budget files).events host session
      Explained host [path] budget own (lastCompleted (log ++ own)) error
  effective : ∀ workspaceRoot projectDirectory files,
    let own := (Operation.effectiveFor workspaceRoot projectDirectory files).events host session
    match session.effectivePaths host workspaceRoot projectDirectory with
    | .error error =>
      (session.effectiveFor host workspaceRoot projectDirectory files).1 = .error error
    | .ok paths => ∃ answer, Answered host paths none own (lastCompleted (log ++ own)) answer ∧
      (session.effectiveFor host workspaceRoot projectDirectory files).1 =
        answer.map fun layers => layers.filterMap id
  configuration : ∀ workspaceRoot projectFile budget files,
    let own := (Operation.configurationFor workspaceRoot projectFile budget files).events host session
    match session.configurationPaths host workspaceRoot projectFile with
    | .error error =>
      (session.configurationForWithWorkBudget host workspaceRoot projectFile budget files).1 =
        .error error
    | .ok paths => ∃ answer, Answered host paths budget own (lastCompleted (log ++ own)) answer ∧
      (session.configurationForWithWorkBudget host workspaceRoot projectFile budget files).1 =
        answer.map fun layers => (layers.filterMap id, zipWith layerStamp paths layers)

variable {host}

lemma lastCompleted_append (log own : List (Event C)) :
    lastCompleted (log ++ own) = own.foldl settle (lastCompleted log) := by
  simp [lastCompleted]

variable {log : List (Event C)}

lemma remembers_of_captured (hcapt : session.captured = lastCompleted log)
    (huser : ∀ path ∈ session.userConfigFile, Normal host path) : Remembers host session log where
  captured := hcapt
  capture := by
    intro path budget files error herror
    have hexpl := (captures host session path budget files 0).explained herror
    rw [hcapt, ← lastCompleted_append] at hexpl
    exact hexpl
  effective := by
    intro workspaceRoot projectDirectory files
    cases hpaths : session.effectivePaths host workspaceRoot projectDirectory with
    | error error => simp only [effectiveFor, hpaths]
    | ok paths =>
      obtain ⟨hnormal, hnodup⟩ :=
        lookupPaths_spec hpaths rooted_of_normalize rooted_of_normalize huser
      obtain ⟨hans, -⟩ := (layers none [] files session 0 hnormal).answered hnormal hnodup
      rw [hcapt, ← lastCompleted_append] at hans
      simp only [Operation.events, effectiveFor, hpaths]
      exact ⟨_, hans, rfl⟩
  configuration := by
    intro workspaceRoot project budget files
    cases hpaths : session.configurationPaths host workspaceRoot project with
    | error error => simp only [configurationForWithWorkBudget, hpaths]
    | ok paths =>
      obtain ⟨hnormal, hnodup⟩ :=
        lookupPaths_spec hpaths rooted_of_normalize rooted_of_projectDirectory huser
      obtain ⟨hans, -⟩ := (layers budget [.checkCancelled, .chargePathVisits 1] files session 0
        hnormal).answered hnormal hnodup
      rw [hcapt, ← lastCompleted_append] at hans
      simp only [Operation.events, configurationForWithWorkBudget, hpaths]
      exact ⟨_, hans, rfl⟩

/-- A refresh keeps what it has when it is interrupted. -/
lemma follows_refreshPath {path : Path} {budget : WorkBudget} :
    Follows session ((Operation.refreshPath path budget files).events host session)
      (session.refreshPathWithBudget host path budget files).2 := by
  simp only [Operation.events, refreshPathWithBudget]
  cases normalizeAbsoluteLexical host path with
  | error error => exact ⟨rfl, rfl⟩
  | ok norm =>
    simp only [readEvent]
    rcases readOverrideFileWithStampAndBudget host norm (some budget) (files norm) 0 with
      ⟨error | _, _⟩
    · by_cases htrans : budget.isTransientError error = true
      · constructor <;> simp [isTransient, htrans, settle]
      · constructor <;> simp [isTransient, htrans, settle, store]
    · exact ⟨rfl, rfl⟩

lemma new_spec (host : Host C) (userConfigFile : Option Path) (files : Path → FileView) :
    (new host userConfigFile files).captured = lastCompleted (newEvents host userConfigFile files) ∧
      ∀ path ∈ (new host userConfigFile files).userConfigFile, Normal host path := by
  cases userConfigFile with
  | none => exact ⟨rfl, fun path hpath => by cases hpath⟩
  | some path =>
    have hfollows := (captures host (fresh (some (userConfigPath host path)))
      (userConfigPath host path) none files 0).follows captureGranted_none
    refine ⟨hfollows.captured, fun other hother => ?_⟩
    have hfile : some (userConfigPath host path) = some other :=
      hfollows.userConfigFile.symm.trans hother
    cases hfile
    exact normal_userConfigPath

lemma layersGranted_none {charges : List Call} :
    LayersGranted host none charges files session paths asked := by
  induction paths generalizing session asked with
  | nil => trivial
  | cons _ paths ih => exact fun next hask => ⟨captureGranted_none, fun last after hcapture => ih⟩

/-- What one operation does to the captured results. -/
lemma follows_apply {op : Operation} (hgranted : op.Granted host session)
    (huser : ∀ path ∈ session.userConfigFile, Normal host path) :
    Follows session (op.events host session) (op.apply host session) := by
  cases op with
  | capturePath path budget files =>
    exact (captures host session path budget files 0).follows hgranted
  | captureWorkspace root files =>
    simp only [Operation.apply, Operation.events, captureWorkspace]
    cases normalizeAbsoluteLexical host root with
    | error error => exact ⟨rfl, rfl⟩
    | ok root => exact (captures host session _ none files 0).follows captureGranted_none
  | effectiveFor workspaceRoot projectDirectory files =>
    simp only [Operation.apply, Operation.events, effectiveFor]
    cases hpaths : session.effectivePaths host workspaceRoot projectDirectory with
    | error error => exact ⟨rfl, rfl⟩
    | ok paths =>
      obtain ⟨hnormal, -⟩ := lookupPaths_spec hpaths rooted_of_normalize rooted_of_normalize huser
      exact (layers none [] files session 0 hnormal).follows layersGranted_none
  | configurationFor workspaceRoot project budget files =>
    simp only [Operation.apply, Operation.events, configurationForWithWorkBudget]
    cases hpaths : session.configurationPaths host workspaceRoot project with
    | error error => exact ⟨rfl, rfl⟩
    | ok paths =>
      obtain ⟨hnormal, -⟩ :=
        lookupPaths_spec hpaths rooted_of_normalize rooted_of_projectDirectory huser
      exact (layers budget _ files session 0 hnormal).follows (hgranted paths hpaths)
  | refreshPath path budget files => exact follows_refreshPath
  | removePath path =>
    simp only [Operation.apply, Operation.events, removePath]
    cases normalizeAbsoluteLexical host path <;> exact ⟨rfl, rfl⟩
  | markAllDirty => exact ⟨rfl, rfl⟩

lemma captured_run {ops : List Operation} (hgranted : RunGranted host session ops)
    (hcapt : session.captured = lastCompleted log)
    (huser : ∀ path ∈ session.userConfigFile, Normal host path) :
    let state := ops.foldl
      (fun state op =>
        (op.apply host state.1, state.2 ++ op.events host state.1)) (session, log)
    state.1.captured = lastCompleted state.2 ∧
      ∀ path ∈ state.1.userConfigFile, Normal host path := by
  induction ops generalizing session log with
  | nil => exact ⟨hcapt, huser⟩
  | cons op ops ih =>
    obtain ⟨hop, hrest⟩ := hgranted
    have hfollows := follows_apply hop huser
    refine ih hrest ?_ ?_
    · rw [hfollows.captured, hcapt, lastCompleted_append]
    · rw [hfollows.userConfigFile]
      exact huser

/-- In every run whose budgeted captures are granted the reads they make, the session
holds the last completed read or removal of every path, and answers from these. -/
theorem interruptions_not_remembered (host : Host C) (userConfigFile : Option Path)
    (files : Path → FileView) (operations : List Operation)
    (hgranted : RunGranted host (new host userConfigFile files) operations) :
    Remembers host (run host userConfigFile files operations).1
      (run host userConfigFile files operations).2 := by
  have hstart := new_spec host userConfigFile files
  obtain ⟨hcaptured, huser⟩ := captured_run hgranted hstart.1 hstart.2
  exact remembers_of_captured hcaptured huser

/-! A workspace with one configuration file of two bytes. -/

def sampleHost : Host Nat where
  absolute := .ok
  absolute_rooted _ := rfl
  parse _ bytes := .ok bytes.length
  contentHashBytes _ := 0

def sampleRoot : Path := rooted ["work"]

def sampleFile : Path := rooted ["work", localConfigName]

def sampleFiles (_ : Path) : FileView where
  symlinkMetadata := .found ⟨.regular, 2⟩
  metadata := .ok ⟨.regular, 2⟩
  opened := .ok ()
  openedMetadata := .ok ⟨.regular, 2⟩
  reads := [.ok [0x61, 0x0A]]

/-- Cancelled after four questions: in a lookup, when the read starts. -/
def cancelledBudget : WorkBudget where
  reply asked _ := if asked < 4 then .ok () else .error "request cancelled"
  isTransientError error := error = "request cancelled"

def idleBudget : WorkBudget where
  reply _ _ := .ok ()
  isTransientError error := error = "request cancelled"

/-- The lookup is granted its read and the refresh is cancelled. -/
theorem interruptions_not_remembered_refresh :
    RunGranted sampleHost (new sampleHost none sampleFiles)
        [.configurationFor (some sampleRoot) none (some idleBudget) sampleFiles,
          .refreshPath sampleFile cancelledBudget sampleFiles] ∧
      Remembers sampleHost
        (run sampleHost none sampleFiles
          [.configurationFor (some sampleRoot) none (some idleBudget) sampleFiles,
            .refreshPath sampleFile cancelledBudget sampleFiles]).1
        (run sampleHost none sampleFiles
          [.configurationFor (some sampleRoot) none (some idleBudget) sampleFiles,
            .refreshPath sampleFile cancelledBudget sampleFiles]).2 := by
  have hgranted : RunGranted sampleHost (new sampleHost none sampleFiles)
      [.configurationFor (some sampleRoot) none (some idleBudget) sampleFiles,
        .refreshPath sampleFile cancelledBudget sampleFiles] := by
    refine ⟨fun paths hpaths => ?_, trivial, trivial⟩
    obtain rfl : [sampleFile] = paths := Except.ok.inj hpaths
    intro next hnext
    obtain rfl : 2 = next := Except.ok.inj hnext
    refine ⟨fun normalized asked hnormalized hasked _ => ?_, fun last after _ => trivial⟩
    obtain rfl : sampleFile = normalized := Except.ok.inj hnormalized
    obtain rfl : 4 = asked := Except.ok.inj hasked
    intro error herror
    cases herror
  exact ⟨hgranted, interruptions_not_remembered sampleHost none sampleFiles _ hgranted⟩

/-- A lookup cancelled in its first read leaves the cancellation behind: the next lookup,
without a budget, reports it and does not read the file. -/
theorem interrupted_lookup_is_remembered :
    let state := run sampleHost none sampleFiles
      [.configurationFor (some sampleRoot) none (some cancelledBudget) sampleFiles]
    state.1.captured sampleFile = some (.error "request cancelled") ∧
      state.2 = [.interrupted sampleFile "request cancelled"] ∧
      (Operation.effectiveFor (some sampleRoot) none sampleFiles).events sampleHost state.1 = [] ∧
      (state.1.effectiveFor sampleHost (some sampleRoot) none sampleFiles).1 =
        .error "request cancelled" := by
  refine ⟨rfl, rfl, rfl, rfl⟩

end Host

end Lint4d.Project
