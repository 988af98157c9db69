import Mathlib

/-!
# Claims on the slots of the project cache

A slot of the cache is computed by one thread at a time.  A lookup that finds no
usable entry gets a claim and records it in the slot; the claim's thread
computes without the lock and stores its result, or drops the claim.  Others
wait meanwhile, take the slot over, or compute beside it without caching.

Budget and indexes of the cache decide which entries are evicted or doomed by a
path; here any entry may be.
-/

namespace Lint4d.ProjectCache

/-! ## Slots and claims -/

inductive Layer where
  | unit
  | imports
  | interface
  deriving Repr, DecidableEq

structure Key where
  layer : Layer
  uri : String
  fingerprint : Nat
  deriving Repr, DecidableEq

/-- A value of one of the layers; the payload stands for its `Arc`. -/
structure Value (V : Type) where
  layer : Layer
  payload : V
  deriving DecidableEq

structure Entry (C V : Type) where
  value : Value V
  context : C
  inputHash : Nat
  deriving DecidableEq

structure ClaimRole where
  interactive : Bool
  /-- The flag that cancels the work. -/
  cancel : Option Nat
  yieldsToInteractive : Bool
  rolelessClaimWait : Option Nat
  deriving Repr, DecidableEq

structure ClaimOwner where
  thread : Nat
  role : ClaimRole
  deriving Repr, DecidableEq

inductive Slot (C V : Type) where
  | ready (entry : Entry C V)
  | computing (generation inputHash claim : Nat) (owner : ClaimOwner)
  deriving DecidableEq

structure Claim (C : Type) where
  key : Key
  generation : Nat
  claim : Nat
  invalidationEpoch : Nat
  context : C
  inputHash : Nat
  detached : Bool
  deriving DecidableEq

structure State (C V : Type) where
  slots : Key → Option (Slot C V)
  /-- Which slot a thread waits for. -/
  waiting : List (Nat × Key)
  generation : Nat
  invalidationEpoch : Nat
  nextClaim : Nat

structure Request (C : Type) where
  key : Key
  context : C
  inputHash : Nat
  role : ClaimRole
  /-- The number of invalidations before the caller's snapshot, if it has one. -/
  snapshot : Option Nat

/-- What a lookup reads besides the cache: the flags, its own cancellation and how long it has
waited. -/
structure Surroundings where
  flags : Nat → Bool
  cancel : Bool
  waited : Nat

/-- How a lookup goes on when it releases the lock. -/
inductive Outcome (C V : Type) where
  | cancelled
  | wait
  | probe (payload : V)
  | again
  | hit (payload : V)
  | compute (claim : Claim C)

variable {C V : Type}

def ClaimRole.cancelled (flags : Nat → Bool) (role : ClaimRole) : Bool := role.cancel.any flags

/-- `wrapping_add(1)` of a `u64`. -/
def wrappingSucc (n : Nat) : Nat := (n + 1) % 2 ^ 64

def Request.snapshotEpoch (request : Request C) : Option Nat := request.snapshot.map (· % 2 ^ 64)

def extract (request : Request C) (value : Value V) : Option V :=
  if value.layer = request.key.layer then some value.payload else none

namespace State

variable (cache : State C V)

def removeReady (key : Key) : State C V :=
  match cache.slots key with
  | some (.ready _) => { cache with slots := Function.update cache.slots key none }
  | _ => cache

/-- The loop of `wait_closes_cycle`. -/
def waitClosesCycleFrom (waiter : Nat) : Nat → Nat → Bool
  | 0, _ => false
  | turns + 1, current =>
    if current = waiter then true
    else
      match cache.waiting.lookup current with
      | none => false
      | some key =>
        match cache.slots key with
        | some (.computing _ _ _ owner) => waitClosesCycleFrom waiter turns owner.thread
        | _ => false

def waitClosesCycle (waiter owner : Nat) : Bool :=
  cache.waitClosesCycleFrom waiter (cache.waiting.length + 1) owner

/-- The end of `lookup`: the slot is claimed. -/
def claimSlot (thread : Nat) (request : Request C) : State C V × Claim C :=
  let cache := cache.removeReady request.key
  ({ cache with
     slots := Function.update cache.slots request.key
       (some (.computing cache.generation request.inputHash cache.nextClaim
         ⟨thread, request.role⟩))
     nextClaim := wrappingSucc cache.nextClaim },
   { key := request.key
     generation := cache.generation
     claim := cache.nextClaim
     invalidationEpoch := request.snapshotEpoch.getD cache.invalidationEpoch
     context := request.context
     inputHash := request.inputHash
     detached := false })

def compute (thread : Nat) (request : Request C) : State C V × Outcome C V :=
  let (cache, claim) := cache.claimSlot thread request
  (cache, .compute claim)

/-- One turn of the loop of `lookup`, until the lock is released. -/
def lookupTurn [DecidableEq C] (now : Surroundings) (thread : Nat) (request : Request C) :
    State C V × Outcome C V :=
  match cache.slots request.key with
  | some (.computing generation claimedInput _ owner) =>
    if now.cancel then (cache, .cancelled)
    else if claimedInput = request.inputHash ∧ (owner.role.cancelled now.flags ∨
        (request.role.interactive ∧ owner.role.yieldsToInteractive)) then
      cache.compute thread request
    else
      let boundedWait :=
        if owner.role.cancel.isNone then request.role.rolelessClaimWait.map (· - now.waited)
        else none
      if claimedInput ≠ request.inputHash ∨ boundedWait = some 0 ∨
          cache.waitClosesCycle thread owner.thread then
        ({ cache with nextClaim := wrappingSucc cache.nextClaim }, .compute
          { key := request.key
            generation := generation
            claim := cache.nextClaim
            invalidationEpoch := request.snapshotEpoch.getD cache.invalidationEpoch
            context := request.context
            inputHash := request.inputHash
            detached := true })
      else
        ({ cache with
           waiting := (thread, request.key) :: cache.waiting.filter (·.1 ≠ thread) }, .wait)
  | some (.ready entry) =>
    if entry.context = request.context ∧ entry.inputHash = request.inputHash then
      match extract request entry.value with
      | some payload => (cache, .probe payload)
      | none => cache.compute thread request
    else cache.compute thread request
  | none => cache.compute thread request

/-- The turn after the probes of a ready entry. -/
def lookupRecheck [DecidableEq C] [DecidableEq V] (thread : Nat) (request : Request C)
    (payload : V) (probesHold : Bool) : State C V × Outcome C V :=
  let sameEntry : Bool :=
    match cache.slots request.key with
    | some (.ready entry) =>
      entry.context = request.context ∧ entry.inputHash = request.inputHash ∧
        extract request entry.value = some payload
    | _ => false
  if ¬ sameEntry then (cache, .again)
  else if probesHold then (cache, .hit payload)
  else cache.compute thread request

/-- The slot is computed under this claim. -/
def records (claim : Claim C) : Bool :=
  match cache.slots claim.key with
  | some (.computing generation _ id _) => generation = claim.generation ∧ id = claim.claim
  | _ => false

def store (claim : Claim C) (value : Value V) (cancel : Bool) : State C V :=
  let current := !claim.detached && !cancel && claim.invalidationEpoch = cache.invalidationEpoch &&
    (cache.records claim && claim.generation = cache.generation)
  if current then
    let cache := cache.removeReady claim.key
    { cache with
      slots := Function.update cache.slots claim.key
        (some (.ready ⟨value, claim.context, claim.inputHash⟩)) }
  else cache

def dropClaim (claim : Claim C) : State C V :=
  if claim.detached then cache
  else if cache.records claim then
    { cache with slots := Function.update cache.slots claim.key none }
  else cache

def wake (thread : Nat) : State C V :=
  { cache with waiting := cache.waiting.filter (·.1 ≠ thread) }

/-- The ready entries of the doomed keys are removed. -/
def removeDoomed (doomed : Key → Bool) : State C V :=
  { cache with
    slots := fun key =>
      match cache.slots key with
      | some (.ready entry) => if doomed key then none else some (.ready entry)
      | slot => slot }

/-- `relevant` is false for a build product that no entry observes. -/
def invalidatePath (relevant : Bool) (doomed : Key → Bool) : State C V :=
  let cache := if relevant then
      { cache with invalidationEpoch := wrappingSucc cache.invalidationEpoch }
    else cache
  cache.removeDoomed doomed

def invalidateAfterOverflow : State C V :=
  { cache with invalidationEpoch := wrappingSucc cache.invalidationEpoch }.removeDoomed
    fun _ => true

def retainFingerprints (keep : Nat → Bool) : State C V :=
  { cache with
    generation := wrappingSucc cache.generation
    slots := fun key => if keep key.fingerprint then cache.slots key else none }

def recoverPoisonedState : State C V :=
  { cache with
    slots := fun _ => none
    generation := wrappingSucc cache.generation }

end State

/-! ## Threads -/

/-- Where a thread is in its lookup. -/
inductive Phase (C V : Type) where
  | idle
  | looking (request : Request C)
  | waiting (request : Request C)
  | probing (request : Request C) (payload : V)

/-- A claim that has not been dropped, with its number among all claims and the numbers of
invalidations and resets before its epoch and before the claim. -/
structure Held (C : Type) where
  claim : Claim C
  serial : Nat
  epochAt : Nat
  resetAt : Nat
  deriving DecidableEq

/-- The cache with its threads.  `advances` counts the invalidations that advanced the epoch,
`resets` the calls of `retain_fingerprints` and the recoveries, `made` the claims. -/
structure World (C V : Type) where
  cache : State C V
  phases : Nat → Phase C V
  held : List (Held C)
  advances : Nat
  resets : Nat
  made : Nat

/-- What happens under the lock in one go. -/
inductive Event (C V : Type) where
  | start (thread : Nat) (request : Request C)
  | turn (thread : Nat) (now : Surroundings)
  | wake (thread : Nat)
  | recheck (thread : Nat) (probesHold : Bool)
  | store (held : Held C) (value : Value V) (cancel : Bool)
  | drop (held : Held C)
  | evict (key : Key)
  | invalidatePath (relevant : Bool) (doomed : Key → Bool)
  | overflow
  | retain (keep : Nat → Bool)
  | recover

namespace World

variable (world : World C V)

def initial : World C V where
  cache := ⟨fun _ => none, [], 0, 0, 0⟩
  phases := fun _ => .idle
  held := []
  advances := 0
  resets := 0
  made := 0

def setPhase (thread : Nat) (phase : Phase C V) : World C V :=
  { world with phases := Function.update world.phases thread phase }

/-- The lookup of a thread goes on as its turn ended; a claim is held from now on. -/
def settle (thread : Nat) (request : Request C) :
    State C V × Outcome C V → World C V
  | (cache, .cancelled) => { world with cache }.setPhase thread .idle
  | (cache, .hit _) => { world with cache }.setPhase thread .idle
  | (cache, .wait) => { world with cache }.setPhase thread (.waiting request)
  | (cache, .probe payload) => { world with cache }.setPhase thread (.probing request payload)
  | (cache, .again) => { world with cache }.setPhase thread (.looking request)
  | (cache, .compute claim) =>
    { world with
      cache
      held := ⟨claim, world.made, request.snapshot.getD world.advances, world.resets⟩ :: world.held
      made := world.made + 1 }.setPhase thread .idle

/-- One event; an event that is not possible changes nothing.  A snapshot is never newer than the
lookup, and a claim is stored or dropped while it is held. -/
def step [DecidableEq C] [DecidableEq V] : Event C V → World C V
  | .start thread request =>
    match world.phases thread with
    | .idle =>
      if request.snapshot.getD 0 ≤ world.advances then world.setPhase thread (.looking request)
      else world
    | _ => world
  | .turn thread now =>
    match world.phases thread with
    | .looking request => world.settle thread request (world.cache.lookupTurn now thread request)
    | _ => world
  | .wake thread =>
    match world.phases thread with
    | .waiting request =>
      { world with cache := world.cache.wake thread }.setPhase thread (.looking request)
    | _ => world
  | .recheck thread probesHold =>
    match world.phases thread with
    | .probing request payload =>
      world.settle thread request (world.cache.lookupRecheck thread request payload probesHold)
    | _ => world
  | .store held value cancel =>
    if held ∈ world.held then { world with cache := world.cache.store held.claim value cancel }
    else world
  | .drop held =>
    if held ∈ world.held then
      { world with cache := world.cache.dropClaim held.claim, held := world.held.erase held }
    else world
  | .evict key => { world with cache := world.cache.removeReady key }
  | .invalidatePath relevant doomed =>
    { world with
      cache := world.cache.invalidatePath relevant doomed
      advances := if relevant then world.advances + 1 else world.advances }
  | .overflow =>
    { world with
      cache := world.cache.invalidateAfterOverflow
      advances := world.advances + 1 }
  | .retain keep =>
    { world with cache := world.cache.retainFingerprints keep, resets := world.resets + 1 }
  | .recover => { world with cache := world.cache.recoverPoisonedState, resets := world.resets + 1 }

def run [DecidableEq C] [DecidableEq V] (events : List (Event C V)) : World C V :=
  events.foldl (fun world event => world.step event) world

end World

end Lint4d.ProjectCache
