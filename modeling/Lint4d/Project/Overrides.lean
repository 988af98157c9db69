import Lint4d.Lib.Checked

/-!
# The override session

A session captures each configuration file once: later lookups answer from the
capture until the file is refreshed, removed or marked dirty.  Reads are made
under the work budget of the caller, which may refuse any of its questions.

Paths are lists of components, files are what the system calls of one read
return, and a budget is what it answers to the questions of one operation in
turn.  Locks are left out: every operation holds the maps while it uses them.
-/

namespace Lint4d.Project

/-! ## Paths -/

inductive Component where
  | rootDir
  | curDir
  | parentDir
  | normal (name : String)
deriving DecidableEq

abbrev Path := List Component

namespace Path

/-- An absolute path without `.` and `..`. -/
def rooted (names : List String) : Path := .rootDir :: names.map .normal

def isAbsolute (path : Path) : Bool := path.head? = some .rootDir

/-- An absolute component replaces the whole path. -/
def push (path : Path) : Component → Path
  | .rootDir => [.rootDir]
  | component => path ++ [component]

/-- The root has no parent. -/
def parent (path : Path) : Option Path :=
  match path.getLast? with
  | none | some .rootDir => none
  | some _ => some path.dropLast

def join (path : Path) (name : String) : Path := path ++ [.normal name]

def display (path : Path) : String :=
  if path = [.rootDir] then "/"
  else "/".intercalate <| path.map fun
    | .rootDir => ""
    | .curDir => "."
    | .parentDir => ".."
    | .normal name => name

end Path

/-! ## Budgets -/

/-- The questions a read asks its budget. -/
inductive Call where
  | checkCancelled
  | chargePathVisits (amount : Nat)
  | ensureFileReadFits (maxBytes : Nat)
  | chargeFileBytes (amount : Nat)
deriving DecidableEq

/-- A budget as one operation sees it: its answers to the questions asked of it,
which are numbered. -/
structure WorkBudget where
  reply : Nat → Call → Except String Unit
  isTransientError : String → Bool

/-- Ask the questions in turn and return the number of the next one. -/
def ask (budget : Option WorkBudget) : List Call → Nat → Except String Nat
  | [], asked => .ok asked
  | call :: calls, asked => do
    if let some budget := budget then
      budget.reply asked call
    ask budget calls (asked + 1)

/-! ## Files -/

inductive FileKind where
  | regular
  | directory
  | symlink
  | other
deriving DecidableEq

structure Metadata where
  kind : FileKind
  len : Nat

inductive Inspection where
  | notFound
  | failed (error : String)
  | found (metadata : Metadata)

/-- What the file system returns to the calls of one read. -/
structure FileView where
  symlinkMetadata : Inspection
  metadata : Except String Metadata
  opened : Except String Unit
  openedMetadata : Except String Metadata
  reads : List (Except String (List UInt8))

structure ConfigurationSourceStamp where
  path : Path
  byteLen : Option Nat
  contentHash : Option UInt64
deriving DecidableEq

/-- A parsed file; `C` is what the text says. -/
structure ConfigurationLayer (C : Type) where
  content : C
  sourceStamp : ConfigurationSourceStamp

abbrev CapturedLayer (C : Type) := Except String (Option (ConfigurationLayer C))

/-- What the session uses of the standard library, of the parser of the texts and
of the hash. -/
structure Host (C : Type) where
  absolute : Path → Except String Path
  absolute_rooted : ∀ names, absolute (Path.rooted names) = .ok (Path.rooted names)
  parse : Path → List UInt8 → Except String C
  contentHashBytes : List UInt8 → UInt64

def localConfigName : String := ".delphi-tools.local.toml"

def maxConfigBytes : Nat := 4 * 1024 * 1024

def chunkBytes : Nat := 8 * 1024

section Reads

variable {C : Type} (host : Host C)

def pushComponent (normalized : Path) : Component → Path
  | .curDir => normalized
  | .parentDir => (Path.parent normalized).getD normalized
  | component => Path.push normalized component

def normalizeAbsoluteLexical (path : Path) : Except String Path := do
  let absolute ← host.absolute path
  let normalized := absolute.foldl pushComponent []
  if normalized.isAbsolute then
    pure normalized
  else
    throw ("could not resolve " ++ path.display ++ " as a native absolute path")

def validateRegularFile (path : Path) (metadata : Metadata) : Except String Unit :=
  match metadata.kind with
  | .directory => .error (path.display ++ " is a directory")
  | .regular => .ok ()
  | _ => .error (path.display ++ " is not a regular file")

variable (path : Path) (budget : Option WorkBudget) (file : FileView)

/-- The metadata of the file behind a link, `none` for a missing file. -/
def inspectCandidate (asked : Nat) :
    Except String (Option Metadata × Nat) :=
  match file.symlinkMetadata with
  | .notFound => .ok (none, asked)
  | .failed error => .error ("could not inspect " ++ path.display ++ ": " ++ error)
  | .found metadata =>
    if metadata.kind = .symlink then do
      let asked ← ask budget [.checkCancelled, .chargePathVisits 1] asked
      match file.metadata with
      | .error error => throw ("could not inspect " ++ path.display ++ ": " ++ error)
      | .ok metadata =>
        validateRegularFile path metadata
        pure (some metadata, asked)
    else do
      validateRegularFile path metadata
      pure (some metadata, asked)

/-- The read loop; `remaining` is what the reader still lets through. -/
def readChunks (path : Path) (budget : Option WorkBudget) :
    List (Except String (List UInt8)) → Nat → List UInt8 → Nat → Except String (List UInt8 × Nat)
  | [], _, bytes, asked => do
    let asked ← ask budget [.checkCancelled] asked
    pure (bytes, asked)
  | read :: reads, remaining, bytes, asked => do
    let asked ← ask budget [.checkCancelled] asked
    if remaining = 0 then
      pure (bytes, asked)
    else match read with
      | .error error => throw ("could not read " ++ path.display ++ ": " ++ error)
      | .ok chunk =>
        let chunk := chunk.take (min remaining chunkBytes)
        if chunk = [] then
          pure (bytes, asked)
        else do
          let asked ← ask budget [.chargeFileBytes chunk.length] asked
          readChunks path budget reads (remaining - chunk.length) (bytes ++ chunk) asked

/-- The part of a read after the file has been inspected. -/
def readOpened (metadata : Metadata)
    (asked : Nat) : Except String (List UInt8 × Nat) :=
  if metadata.len > maxConfigBytes then
    .error (path.display ++ " exceeds " ++ toString maxConfigBytes ++ " bytes")
  else match file.opened with
    | .error error => .error ("could not open " ++ path.display ++ ": " ++ error)
    | .ok () => do
      let asked ← ask budget [.checkCancelled, .chargePathVisits 1] asked
      match file.openedMetadata with
      | .error error => throw ("could not inspect opened " ++ path.display ++ ": " ++ error)
      | .ok openedMetadata =>
        validateRegularFile path openedMetadata
        let readLimit := min metadata.len maxConfigBytes
        let asked ← ask budget [.ensureFileReadFits (readLimit + 1), .checkCancelled] asked
        let (bytes, asked) ← readChunks path budget file.reads (readLimit + 1) [] asked
        if bytes.length > readLimit then
          throw (path.display ++ " grew beyond its " ++ toString readLimit ++ " byte read limit")
        else
          pure (bytes, asked)

/-- The bytes of a file, `none` for a missing one. -/
def readBytes (asked : Nat) :
    Except String (Option (List UInt8) × Nat) := do
  let asked ← ask budget [.checkCancelled, .chargePathVisits 1] asked
  let (metadata, asked) ← inspectCandidate path budget file asked
  match metadata with
  | none => pure (none, asked)
  | some metadata =>
    let (bytes, asked) ← readOpened path budget file metadata asked
    pure (some bytes, asked)

def sourceStamp (path : Path) (bytes : List UInt8) : ConfigurationSourceStamp where
  path := path
  byteLen := some bytes.length
  contentHash := some (host.contentHashBytes bytes)

/-- The outcome of a read and the stamp of the bytes it got to. -/
def readOverrideFileWithStampAndBudget
    (asked : Nat) :
    Except String (Option (ConfigurationLayer C) × Nat) × Option ConfigurationSourceStamp :=
  match readBytes path budget file asked with
  | .error error => (.error error, none)
  | .ok (none, asked) => (.ok (none, asked), none)
  | .ok (some bytes, asked) =>
    let stamp := sourceStamp host path bytes
    ((host.parse path bytes).map fun content => (some ⟨content, stamp⟩, asked), some stamp)

end Reads

/-! ## The session -/

structure OverrideSession (C : Type) where
  userConfigFile : Option Path
  captured : Path → Option (CapturedLayer C)
  capturedErrorStamps : Path → Option (Option ConfigurationSourceStamp)
  dirty : Path → Bool

namespace OverrideSession

variable {C : Type} (host : Host C) (session : OverrideSession C)

/-- The result of a read is the captured result of the path. -/
def store (path : Path) (result : CapturedLayer C) (stamp : Option ConfigurationSourceStamp) :
    OverrideSession C :=
  { session with
    captured := Function.update session.captured path (some result)
    capturedErrorStamps := Function.update session.capturedErrorStamps path <| match result with
      | .error _ => some stamp
      | .ok _ => none
    dirty := Function.update session.dirty path false }

def capturePathWithWorkBudget (path : Path) (budget : Option WorkBudget) (files : Path → FileView)
    (asked : Nat) : Except String Nat × OverrideSession C :=
  match normalizeAbsoluteLexical host path with
  | .error error => (.error error, session)
  | .ok path =>
    match ask budget [.checkCancelled, .chargePathVisits 1] asked with
    | .error error => (.error error, session)
    | .ok asked =>
      match session.dirty path, session.captured path with
      | false, some (.ok _) => (.ok asked, session)
      | false, some (.error error) => (.error error, session)
      | _, _ =>
        let (result, stamp) :=
          readOverrideFileWithStampAndBudget host path budget (files path) asked
        (result.map Prod.snd, session.store path (result.map Prod.fst) stamp)

def capturedLayer (path : Path) : Except String (CapturedLayer C) :=
  match session.captured path with
  | none => .error ("configuration path was not captured: " ++ path.display)
  | some result => .ok result

def captureWorkspace (root : Path) (files : Path → FileView) :
    Except String Nat × OverrideSession C :=
  match normalizeAbsoluteLexical host root with
  | .error error => (.error error, session)
  | .ok root => session.capturePathWithWorkBudget host (root.join localConfigName) none files 0

/-- A session that has captured nothing. -/
def fresh (userConfigFile : Option Path) : OverrideSession C where
  userConfigFile := userConfigFile
  captured := fun _ => none
  capturedErrorStamps := fun _ => none
  dirty := fun _ => false

/-- The path itself where it has no normal form. -/
def userConfigPath (path : Path) : Path :=
  match normalizeAbsoluteLexical host path with
  | .ok normalized => normalized
  | .error _ => path

def new (userConfigFile : Option Path) (files : Path → FileView) : OverrideSession C :=
  let session := fresh (userConfigFile.map (userConfigPath host))
  match session.userConfigFile with
  | none => session
  | some path => (session.capturePathWithWorkBudget host path none files 0).2

def refreshPathWithBudget (path : Path) (budget : WorkBudget) (files : Path → FileView) :
    Except String Unit × OverrideSession C :=
  match normalizeAbsoluteLexical host path with
  | .error error => (.error error, session)
  | .ok path =>
    match readOverrideFileWithStampAndBudget host path (some budget) (files path) 0 with
    | (.ok (layer, _), stamp) => (.ok (), session.store path (.ok layer) stamp)
    | (.error error, stamp) =>
      if budget.isTransientError error then
        (.error error, { session with dirty := Function.update session.dirty path true })
      else
        (.error error, session.store path (.error error) stamp)

def removePath (path : Path) : Except String Unit × OverrideSession C :=
  match normalizeAbsoluteLexical host path with
  | .error error => (.error error, session)
  | .ok path => (.ok (), session.store path (.ok none) none)

def markAllDirty : OverrideSession C :=
  { session with dirty := fun path => session.dirty path || (session.captured path).isSome }

/-! ## Lookups -/

def pushUniquePath (paths : List Path) (path : Path) : List Path :=
  if path ∈ paths then paths else paths ++ [path]

/-- Add the configuration file of a directory, if there is a directory. -/
def pushConfig (paths : List Path) : Option (Except String Path) → Except String (List Path)
  | none => .ok paths
  | some directory => do
    let directory ← directory
    pure (pushUniquePath paths (directory.join localConfigName))

/-- The files of a lookup in order: the user's, the workspace's and the project's. -/
def lookupPaths (workspaceRoot projectDirectory : Option (Except String Path)) :
    Except String (List Path) := do
  let paths ← pushConfig session.userConfigFile.toList workspaceRoot
  pushConfig paths projectDirectory

/-- The directory of a project file. -/
def projectDirectory (projectFile : Path) : Except String Path := do
  let projectFile ← normalizeAbsoluteLexical host projectFile
  pure (projectFile.parent.getD projectFile)

def effectivePaths (workspaceRoot projectDirectory : Option Path) : Except String (List Path) :=
  session.lookupPaths (workspaceRoot.map (normalizeAbsoluteLexical host))
    (projectDirectory.map (normalizeAbsoluteLexical host))

def configurationPaths (workspaceRoot projectFile : Option Path) : Except String (List Path) :=
  session.lookupPaths (workspaceRoot.map (normalizeAbsoluteLexical host))
    (projectFile.map (projectDirectory host))

/-- Capture the paths in turn; `charges` are the questions the lookup itself asks
before each of them. -/
def captureLayers (budget : Option WorkBudget) (charges : List Call) (files : Path → FileView)
    (session : OverrideSession C) :
    List Path → Nat → Except String (List (Option (ConfigurationLayer C))) × OverrideSession C
  | [], _ => (.ok [], session)
  | path :: paths, asked =>
    match ask budget charges asked with
    | .error error => (.error error, session)
    | .ok asked =>
      match session.capturePathWithWorkBudget host path budget files asked with
      | (.error error, session) => (.error error, session)
      | (.ok asked, session) =>
        match session.capturedLayer path with
        | .error error | .ok (.error error) => (.error error, session)
        | .ok (.ok layer) =>
          let (layers, session) := captureLayers budget charges files session paths asked
          (layers.map (layer :: ·), session)

/-- The layers that are merged into the effective overrides. -/
def effectiveFor (workspaceRoot projectDirectory : Option Path) (files : Path → FileView) :
    Except String (List (ConfigurationLayer C)) × OverrideSession C :=
  match session.effectivePaths host workspaceRoot projectDirectory with
  | .error error => (.error error, session)
  | .ok paths =>
    let (layers, session) := captureLayers host none [] files session paths 0
    (layers.map fun layers => layers.filterMap id, session)

/-- The stamp of what was captured at a path. -/
def layerStamp (path : Path) : Option (ConfigurationLayer C) → ConfigurationSourceStamp
  | some layer => layer.sourceStamp
  | none => ⟨path, none, none⟩

/-- The layers of a project configuration and the stamps of their sources. -/
def configurationForWithWorkBudget (workspaceRoot projectFile : Option Path)
    (budget : Option WorkBudget) (files : Path → FileView) :
    Except String (List (ConfigurationLayer C) × List ConfigurationSourceStamp) ×
      OverrideSession C :=
  match session.configurationPaths host workspaceRoot projectFile with
  | .error error => (.error error, session)
  | .ok paths =>
    let (layers, session) :=
      captureLayers host budget [.checkCancelled, .chargePathVisits 1] files session paths 0
    (layers.map fun layers => (layers.filterMap id, List.zipWith layerStamp paths layers), session)

end OverrideSession

end Lint4d.Project
