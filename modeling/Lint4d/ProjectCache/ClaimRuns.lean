import Lint4d.ProjectCache.Claims

/-!
# Only the current claim of a slot fills it

Whatever the threads do, an entry is put into a slot by the claim recorded
there, and that claim has seen every invalidation since its epoch and every
reset since it was made.  No claim touches what another one has in a slot.
-/

namespace Lint4d.ProjectCache

open List Function State

variable {C V : Type} {key : Key} {entry : Entry C V}

/-! ## What a turn of a lookup does -/

/-- Every slot is as before, is empty, or is computed by one of the threads. -/
def Keeps (threads : Set Nat) (slots slots' : Key → Option (Slot C V)) : Prop :=
  ∀ key, slots' key = slots key ∨ slots' key = none ∨ ∃ generation input id owner,
    slots' key = some (.computing generation input id owner) ∧ owner.thread ∈ threads

section Keeps

variable {slots slots' : Key → Option (Slot C V)}

lemma Keeps.refl (threads : Set Nat) : Keeps threads slots slots := fun _ => .inl rfl

lemma Keeps.ready {threads : Set Nat} (h : Keeps threads slots slots')
    (hready : slots' key = some (.ready entry)) : slots key = some (.ready entry) := by
  rcases h key with hsame | hnone | ⟨_, _, _, _, hslot, _⟩
  · exact hsame ▸ hready
  · cases hnone.symm.trans hready
  · cases hslot.symm.trans hready

lemma keeps_empty (threads : Set Nat) (key : Key) :
    Keeps threads slots (update slots key none) := by
  intro other
  by_cases heq : other = key <;> simp [heq]

end Keeps

namespace State

variable {cache : State C V} {thread : Nat} {request : Request C}

lemma removeReady_eq (cache : State C V) (key : Key) : ∃ slots,
    cache.removeReady key = { cache with slots } ∧ ∀ threads, Keeps threads cache.slots slots := by
  unfold removeReady
  split
  · exact ⟨_, rfl, fun threads => keeps_empty threads key⟩
  · exact ⟨cache.slots, rfl, .refl⟩

/-- The thread that computes a slot. -/
def computingThread (cache : State C V) (key : Key) : Option Nat :=
  match cache.slots key with
  | some (.computing _ _ _ owner) => some owner.thread
  | _ => none

def addWait (cache : State C V) (thread : Nat) (key : Key) : State C V :=
  { cache with waiting := (thread, key) :: cache.waiting.filter (·.1 ≠ thread) }

/-- A lookup puts no entry into a slot, takes a slot for its own thread only and hands out a claim
with the next number; it waits only when the search found no cycle. -/
structure Turns (cache : State C V) (thread : Nat) (request : Request C)
    (result : State C V × Outcome C V) : Prop where
  generation : result.1.generation = cache.generation
  epoch : result.1.invalidationEpoch = cache.invalidationEpoch
  keeps : Keeps {thread} cache.slots result.1.slots
  next : match result.2 with
    | .compute claim => result.1.nextClaim = wrappingSucc cache.nextClaim ∧
      claim.claim = cache.nextClaim ∧
      claim.invalidationEpoch = request.snapshotEpoch.getD cache.invalidationEpoch ∧
      (claim.detached = false → claim.generation = cache.generation)
    | _ => result.1.nextClaim = cache.nextClaim
  waits : match result.2 with
    | .wait => result.1 = cache.addWait thread request.key ∧ ∃ owner,
      cache.computingThread request.key = some owner ∧ cache.waitClosesCycle thread owner = false
    | _ => result.1.waiting = cache.waiting

lemma turns_compute : Turns cache thread request (cache.compute thread request) := by
  obtain ⟨_, hrem, hkeeps⟩ := removeReady_eq cache request.key
  simp only [compute, claimSlot, hrem]
  refine ⟨rfl, rfl, fun key => ?_, ⟨rfl, rfl, rfl, fun _ => rfl⟩, rfl⟩
  by_cases heq : key = request.key
  · subst heq
    exact .inr (.inr ⟨_, _, _, _, update_self .., rfl⟩)
  · simpa [heq] using hkeeps {thread} key

lemma turns_lookupTurn [DecidableEq C] (now : Surroundings) :
    Turns cache thread request (cache.lookupTurn now thread request) := by
  have hsame : Keeps {thread} cache.slots cache.slots := .refl _
  unfold lookupTurn
  split
  · next _ _ _ owner hslot =>
    have hcomputing : cache.computingThread request.key = some owner.thread := by
      simp [computingThread, hslot]
    dsimp only
    -- the wait is bounded or not
    split_ifs with _ _ _ hbeside hbeside
    · exact ⟨rfl, rfl, hsame, rfl, rfl⟩
    · exact turns_compute
    · exact ⟨rfl, rfl, hsame, ⟨rfl, rfl, rfl, nofun⟩, rfl⟩
    · exact ⟨rfl, rfl, hsame, rfl, rfl, _, hcomputing,
        by simpa using (not_or.1 (not_or.1 hbeside).2).2⟩
    · exact ⟨rfl, rfl, hsame, ⟨rfl, rfl, rfl, nofun⟩, rfl⟩
    · exact ⟨rfl, rfl, hsame, rfl, rfl, _, hcomputing,
        by simpa using (not_or.1 (not_or.1 hbeside).2).2⟩
  · split_ifs
    · split
      · exact ⟨rfl, rfl, hsame, rfl, rfl⟩
      · exact turns_compute
    · exact turns_compute
  · exact turns_compute

/-- A hit is for the entry in the slot, with the context and the input asked for. -/
lemma lookupRecheck_spec [DecidableEq C] [DecidableEq V] (payload : V) (probesHold : Bool) :
    Turns cache thread request (cache.lookupRecheck thread request payload probesHold) ∧
    ∀ found, (cache.lookupRecheck thread request payload probesHold).2 = .hit found →
      found = payload ∧ probesHold = true ∧ ∃ entry,
        cache.slots request.key = some (.ready entry) ∧ entry.context = request.context ∧
          entry.inputHash = request.inputHash ∧ extract request entry.value = some payload := by
  have hsame : Keeps {thread} cache.slots cache.slots := .refl _
  unfold lookupRecheck
  dsimp only
  split_ifs with hentry hprobes
  · refine ⟨⟨rfl, rfl, hsame, rfl, rfl⟩, ?_⟩
    rintro found ⟨⟩
    refine ⟨rfl, hprobes, ?_⟩
    split at hentry
    · next entry hslot => exact ⟨entry, hslot, by simpa using hentry⟩
    · simp at hentry
  · exact ⟨turns_compute, nofun⟩
  · exact ⟨⟨rfl, rfl, hsame, rfl, rfl⟩, nofun⟩

/-- A claim is stored only while it is recorded, of the current epoch and generation. -/
lemma store_cases (claim : Claim C) (value : Value V) (cancel : Bool) :
    cache.store claim value cancel = cache ∨
    (claim.detached = false ∧ cancel = false ∧ claim.invalidationEpoch = cache.invalidationEpoch ∧
      cache.records claim = true ∧ claim.generation = cache.generation ∧
      cache.store claim value cancel = { cache with
        slots := update cache.slots claim.key
          (some (.ready ⟨value, claim.context, claim.inputHash⟩)) }) := by
  unfold store
  dsimp only
  split_ifs with hcur
  · right
    simp only [Bool.and_eq_true, Bool.not_eq_true', decide_eq_true_eq] at hcur
    obtain ⟨⟨⟨hdet, hcancel⟩, hepoch⟩, hrecs, hgen⟩ := hcur
    refine ⟨hdet, hcancel, hepoch, hrecs, hgen, ?_⟩
    -- the slot is being computed, so there is no entry to remove
    have hrem : cache.removeReady claim.key = cache := by
      unfold records at hrecs
      unfold removeReady
      split
      · next entry hslot => simp [hslot] at hrecs
      · rfl
    rw [hrem]
  · exact .inl rfl

lemma dropClaim_cases (claim : Claim C) : cache.dropClaim claim = cache ∨
    (claim.detached = false ∧ cache.records claim = true ∧ cache.dropClaim claim =
      { cache with slots := update cache.slots claim.key none }) := by
  unfold dropClaim
  split_ifs with hdet hrecs
  · exact .inl rfl
  · exact .inr ⟨by simpa using hdet, hrecs, rfl⟩
  · exact .inl rfl

lemma keeps_removeDoomed (doomed : Key → Bool) :
    Keeps ∅ cache.slots (cache.removeDoomed doomed).slots := by
  intro key
  unfold removeDoomed
  dsimp only
  split
  · next _ hslot =>
    split_ifs
    · exact .inr (.inl rfl)
    · exact .inl hslot.symm
  · exact .inl rfl

lemma keeps_retainFingerprints (keep : Nat → Bool) :
    Keeps ∅ cache.slots (cache.retainFingerprints keep).slots := by
  intro key
  by_cases hkeep : keep key.fingerprint = true <;> simp [retainFingerprints, hkeep]

end State

/-! ## The counters -/

/-- The request of a lookup that is under way. -/
def Phase.request : Phase C V → Option (Request C)
  | .idle => none
  | .looking request | .waiting request | .probing request _ => some request

namespace World

variable {world : World C V} {thread : Nat} {held other : Held C}

/-- What the numbers of a held claim say about the claim. -/
structure Numbered (world : World C V) (held : Held C) : Prop where
  serial : held.serial < world.made
  epochAt : held.epochAt ≤ world.advances
  resetAt : held.resetAt ≤ world.resets
  claim : held.claim.claim = held.serial % 2 ^ 64
  invalidationEpoch : held.claim.invalidationEpoch = held.epochAt % 2 ^ 64
  generation : held.claim.detached = false → held.claim.generation = held.resetAt % 2 ^ 64

structure Sound (world : World C V) : Prop where
  epoch : world.cache.invalidationEpoch = world.advances % 2 ^ 64
  generation : world.cache.generation = world.resets % 2 ^ 64
  next : world.cache.nextClaim = world.made % 2 ^ 64
  held : ∀ held ∈ world.held, world.Numbered held
  serials : (world.held.map Held.serial).Nodup
  snapshots : ∀ thread request, (world.phases thread).request = some request →
    request.snapshot.getD 0 ≤ world.advances

lemma wrappingSucc_mod (n : Nat) : wrappingSucc (n % 2 ^ 64) = (n + 1) % 2 ^ 64 := by
  unfold wrappingSucc
  omega

section

variable (h : world.Sound)

include h

/-- A world in which only the cache and the past have moved on. -/
lemma Sound.later {cache : State C V} {advances resets : Nat} (hadv : world.advances ≤ advances)
    (hresets : world.resets ≤ resets) (hepoch : cache.invalidationEpoch = advances % 2 ^ 64)
    (hgen : cache.generation = resets % 2 ^ 64) (hnext : cache.nextClaim = world.cache.nextClaim) :
    { world with cache, advances, resets }.Sound := by
  refine ⟨hepoch, hgen, hnext.trans h.next, ?_, h.serials, ?_⟩
  · intro held hheld
    have hnum := h.held held hheld
    exact { hnum with epochAt := hnum.epochAt.trans hadv, resetAt := hnum.resetAt.trans hresets }
  · exact fun thread request hreq => (h.snapshots thread request hreq).trans hadv

lemma Sound.setPhase {phase : Phase C V} (hphase : ∀ request, phase.request = some request →
      request.snapshot.getD 0 ≤ world.advances) : (world.setPhase thread phase).Sound := by
  refine { h with held := fun held hheld => { h.held held hheld with }, snapshots := ?_ }
  intro other request hreq
  by_cases heq : other = thread
  · subst heq
    exact hphase request (by simpa [World.setPhase] using hreq)
  · exact h.snapshots other request (by simpa [World.setPhase, heq] using hreq)

lemma Sound.settle {request : Request C} (hreq : request.snapshot.getD 0 ≤ world.advances)
    {result : State C V × Outcome C V} (hturns : world.cache.Turns thread request result) :
    (world.settle thread request result).Sound := by
  obtain ⟨cache, outcome⟩ := result
  obtain ⟨hgen, hepoch, -, hnext, -⟩ := hturns
  have hlater : cache.nextClaim = world.cache.nextClaim → { world with cache }.Sound :=
    h.later le_rfl le_rfl (hepoch.trans h.epoch) (hgen.trans h.generation)
  have hsame : ∀ phase : Phase C V, (∀ r, phase.request = some r → r = request) →
      ∀ r, phase.request = some r → r.snapshot.getD 0 ≤ world.advances :=
    fun phase hphase r hr => hphase r hr ▸ hreq
  cases outcome with
  | compute =>
    obtain ⟨hmade, hid, hclaimEpoch, hclaimGeneration⟩ := hnext
    refine Sound.setPhase ?_ (by rintro r ⟨⟩)
    refine ⟨hepoch.trans h.epoch, hgen.trans h.generation, ?_, ?_, ?_, h.snapshots⟩
    · rw [hmade, h.next, wrappingSucc_mod]
    · intro held hheld
      rcases mem_cons.1 hheld with rfl | hheld
      · refine ⟨Nat.lt_succ_self _, ?_, le_rfl, hid.trans h.next, ?_,
          fun hdet => (hclaimGeneration hdet).trans h.generation⟩
        · cases hsnap : request.snapshot with
          | none => simp
          | some snapshot => simpa [hsnap] using hreq
        · rw [hclaimEpoch, Request.snapshotEpoch, h.epoch]
          cases request.snapshot <;> rfl
      · have hnum := h.held held hheld
        exact { hnum with serial := Nat.lt_succ_of_lt hnum.serial }
    · rw [map_cons, nodup_cons]
      refine ⟨fun hmem => ?_, h.serials⟩
      obtain ⟨held, hheld, heq⟩ := mem_map.1 hmem
      exact absurd (h.held held hheld).serial (Nat.not_lt.2 (Nat.le_of_eq heq.symm))
  | cancelled | hit => exact (hlater hnext).setPhase nofun
  | wait | again | probe => exact (hlater hnext).setPhase (hsame _ (by rintro r ⟨⟩; rfl))

/-- Two claims with one number are one, as long as the numbers have not wrapped. -/
lemma Sound.eq_of_claim_eq (hmade : world.made < 2 ^ 64)
    (hheld : held ∈ world.held) (hother : other ∈ world.held)
    (hclaim : held.claim.claim = other.claim.claim) : held = other := by
  have hnum := h.held held hheld
  have hnum' := h.held other hother
  rw [hnum.claim, hnum'.claim, Nat.mod_eq_of_lt (hnum.serial.trans hmade),
    Nat.mod_eq_of_lt (hnum'.serial.trans hmade)] at hclaim
  exact inj_on_of_nodup_map h.serials hheld hother hclaim

/-- Another claim is still recorded after a change to the slot of this one. -/
lemma Sound.records_update (hmade : world.made < 2 ^ 64)
    (hheld : held ∈ world.held) (hother : other ∈ world.held) (hne : other ≠ held)
    (hrecs : world.cache.records held.claim = true)
    (hrecords' : world.cache.records other.claim = true) (slot : Option (Slot C V)) :
    { world.cache with slots := update world.cache.slots held.claim.key slot }.records
      other.claim = true := by
  have hkey : other.claim.key ≠ held.claim.key := by
    intro hkey
    unfold records at hrecs hrecords'
    rw [hkey] at hrecords'
    split at hrecs
    · next _ _ _ _ hslot =>
      simp only [hslot, decide_eq_true_eq] at hrecs hrecords'
      exact hne (h.eq_of_claim_eq hmade hother hheld (hrecords'.2.symm.trans hrecs.2))
    · cases hrecs
  unfold records at hrecords' ⊢
  simpa only [update_of_ne hkey] using hrecords'

end

variable [DecidableEq C] [DecidableEq V]

lemma Sound.step (h : world.Sound) (event : Event C V) : (world.step event).Sound := by
  -- both counters wrap; the ghost counts do not
  have hadvance := wrappingSucc_mod world.advances
  have hreset := wrappingSucc_mod world.resets
  rw [← h.epoch] at hadvance
  rw [← h.generation] at hreset
  have hle := Nat.le_refl world.advances
  have hle' := Nat.le_refl world.resets
  cases event with
  | start thread request =>
    rw [World.step]
    split
    · split_ifs with hsnap
      · exact h.setPhase (by rintro r ⟨⟩; exact hsnap)
      · exact h
    · exact h
  | turn thread now =>
    rw [World.step]
    split
    · next request hphase =>
      exact h.settle (h.snapshots thread request (by rw [hphase]; rfl)) (turns_lookupTurn now)
    · exact h
  | wake thread =>
    rw [World.step]
    split
    · next request hphase =>
      have hreq := h.snapshots thread request (by rw [hphase]; rfl)
      have hwoken : { world with cache := world.cache.wake thread }.Sound :=
        h.later hle hle' h.epoch h.generation rfl
      exact hwoken.setPhase (by rintro r ⟨⟩; exact hreq)
    · exact h
  | recheck thread probesHold =>
    rw [World.step]
    split
    · next request payload hphase =>
      exact h.settle (h.snapshots thread request (by rw [hphase]; rfl))
        (lookupRecheck_spec payload probesHold).1
    · exact h
  | store held value cancel =>
    rw [World.step]
    split_ifs
    · rcases world.cache.store_cases held.claim value cancel with hsame | ⟨-, -, -, -, -, hstored⟩
      · rw [hsame]
        exact h
      · rw [hstored]
        exact h.later hle hle' h.epoch h.generation rfl
    · exact h
  | drop held =>
    rw [World.step]
    split_ifs
    · have hdropped : { world with cache := world.cache.dropClaim held.claim }.Sound := by
        rcases world.cache.dropClaim_cases held.claim with hsame | ⟨-, -, hdropped⟩
        · rw [hsame]
          exact h
        · rw [hdropped]
          exact h.later hle hle' h.epoch h.generation rfl
      refine { hdropped with held := ?_, serials := h.serials.sublist (erase_sublist.map _) }
      exact fun other hother => { h.held other (mem_of_mem_erase hother) with }
    · exact h
  | evict key =>
    obtain ⟨_, hrem, -⟩ := removeReady_eq world.cache key
    rw [World.step, hrem]
    exact h.later hle hle' h.epoch h.generation rfl
  -- only a relevant path advances the epoch
  | invalidatePath relevant =>
    rw [World.step]
    cases relevant with
    | true => exact h.later (Nat.le_succ _) hle' hadvance h.generation rfl
    | false => exact h.later hle hle' h.epoch h.generation rfl
  | overflow => exact h.later (Nat.le_succ _) hle' hadvance h.generation rfl
  | retain | recover => exact h.later hle (Nat.le_succ _) h.epoch hreset rfl

lemma sound_run (events : List (Event C V)) : (initial.run events : World C V).Sound := by
  have hrun : ∀ world : World C V, world.Sound → (world.run events).Sound := by
    induction events with
    | nil => exact fun _ h => h
    | cons event events ih => exact fun world h => ih _ (h.step event)
  exact hrun _ ⟨rfl, rfl, rfl, nofun, nodup_nil, nofun⟩

/-- An event other than a store puts no entry into a slot. -/
lemma ready_of_step {event : Event C V}
    (hevent : ∀ held value cancel, event ≠ .store held value cancel)
    (h : (world.step event).cache.slots key = some (.ready entry)) :
    world.cache.slots key = some (.ready entry) := by
  have hsettle : ∀ thread request result, world.cache.Turns thread request result →
      (world.settle thread request result).cache.slots key = some (.ready entry) →
      world.cache.slots key = some (.ready entry) := by
    rintro thread request ⟨cache, outcome⟩ hturns hready
    cases outcome <;> exact hturns.keeps.ready hready
  cases event with
  | store held value cancel => exact absurd rfl (hevent held value cancel)
  | start | wake =>
    rw [World.step] at h
    repeat' split at h
    all_goals exact h
  | turn =>
    rw [World.step] at h
    split at h
    · exact hsettle _ _ _ (turns_lookupTurn _) h
    · exact h
  | recheck =>
    rw [World.step] at h
    split at h
    · exact hsettle _ _ _ (lookupRecheck_spec _ _).1 h
    · exact h
  | drop held =>
    rw [World.step] at h
    split_ifs at h
    · rcases world.cache.dropClaim_cases held.claim with heq | ⟨-, -, heq⟩
      · simpa only [heq] using h
      · rw [heq] at h
        exact (keeps_empty ∅ held.claim.key).ready h
    · exact h
  | evict key =>
    obtain ⟨slots, hrem, hkeeps⟩ := removeReady_eq world.cache key
    rw [World.step, hrem] at h
    exact (hkeeps ∅).ready h
  | invalidatePath relevant doomed => cases relevant <;> exact (keeps_removeDoomed doomed).ready h
  | overflow => exact (keeps_removeDoomed fun _ => true).ready h
  | retain keep => exact (keeps_retainFingerprints keep).ready h
  | recover => cases h

omit [DecidableEq C] [DecidableEq V] in
/-- A store that changes the cache is by a claim since whose epoch nothing was invalidated and
since which nothing was reset. -/
lemma Sound.store_cases (h : world.Sound) (hadv : world.advances < 2 ^ 64)
    (hresets : world.resets < 2 ^ 64) (hheld : held ∈ world.held) (value : Value V)
    (cancel : Bool) :
    world.cache.store held.claim value cancel = world.cache ∨
    (held.claim.detached = false ∧ cancel = false ∧ world.cache.records held.claim = true ∧
      held.epochAt = world.advances ∧ held.resetAt = world.resets ∧
      world.cache.store held.claim value cancel = { world.cache with
        slots := update world.cache.slots held.claim.key
          (some (.ready ⟨value, held.claim.context, held.claim.inputHash⟩)) }) := by
  rcases world.cache.store_cases held.claim value cancel with
    heq | ⟨hdet, hcancel, hepoch, hrecs, hgen, heq⟩
  · exact .inl heq
  have hnum := h.held held hheld
  -- neither counter has wrapped, so equal remainders are equal counts
  rw [hnum.invalidationEpoch, h.epoch, Nat.mod_eq_of_lt hadv,
    Nat.mod_eq_of_lt (hnum.epochAt.trans_lt hadv)] at hepoch
  rw [hnum.generation hdet, h.generation, Nat.mod_eq_of_lt hresets,
    Nat.mod_eq_of_lt (hnum.resetAt.trans_lt hresets)] at hgen
  exact .inr ⟨hdet, hcancel, hrecs, hepoch, hgen, heq⟩

omit [DecidableEq C] [DecidableEq V] in
/-- A recorded claim may change its own slot, which holds no entry. -/
lemma Sound.own_slot (h : world.Sound) (hmade : world.made < 2 ^ 64) (hheld : held ∈ world.held)
    (hrecs : world.cache.records held.claim = true) (slot : Option (Slot C V)) :
    let slots := update world.cache.slots held.claim.key slot
    (∀ key ≠ held.claim.key, slots key = world.cache.slots key) ∧
    (∀ other ∈ world.held, other ≠ held → world.cache.records other.claim = true →
      { world.cache with slots }.records other.claim = true) ∧
    ∀ key entry, world.cache.slots key = some (.ready entry) → slots key = some (.ready entry) := by
  refine ⟨fun key hkey => update_of_ne hkey _ _, fun other hother hne hrecords' =>
      h.records_update hmade hheld hother hne hrecs hrecords' slot, fun key entry hready => ?_⟩
  rw [update_of_ne, hready]
  rintro rfl
  simp [records, hready] at hrecs

/-- In every run in which none of the three counters has wrapped: an entry is put into a slot only
by the claim recorded there, since whose epoch nothing was invalidated and since which nothing was
reset; a store or drop changes nothing unless its claim is recorded, and then only the claim's own
state; a cancelled or outdated claim fills nothing; and a hit is for the entry that is in the slot
after its probes held. -/
theorem only_current_claim_fills (events : List (Event C V)) (event : Event C V)
    (hadvances : (initial.run events : World C V).advances < 2 ^ 64)
    (hresets : (initial.run events : World C V).resets < 2 ^ 64)
    (hmade : (initial.run events : World C V).made < 2 ^ 64) :
    let world : World C V := initial.run events
    let world' := world.step event
    (∀ key entry, world'.cache.slots key = some (.ready entry) →
      world.cache.slots key ≠ some (.ready entry) →
      ∃ held ∈ world.held, ∃ value, event = .store held value false ∧
        held.claim.detached = false ∧ held.claim.key = key ∧ world.cache.records held.claim ∧
        held.epochAt = world.advances ∧ held.resetAt = world.resets ∧
        entry = ⟨value, held.claim.context, held.claim.inputHash⟩) ∧
    (∀ held ∈ world.held, (∃ value cancel, event = .store held value cancel) ∨ event = .drop held →
      (held.claim.detached ∨ ¬ world.cache.records held.claim →
        world'.cache.slots = world.cache.slots) ∧
      (∀ key ≠ held.claim.key, world'.cache.slots key = world.cache.slots key) ∧
      (∀ other ∈ world.held, other ≠ held → world.cache.records other.claim →
        world'.cache.records other.claim) ∧
      ∀ key entry, world.cache.slots key = some (.ready entry) →
        world'.cache.slots key = some (.ready entry)) ∧
    (∀ held value cancel, event = .store held value cancel →
      cancel ∨ held.epochAt ≠ world.advances ∨ held.resetAt ≠ world.resets →
      world'.cache.slots = world.cache.slots) ∧
    ∀ thread request, (∀ now found, (world.cache.lookupTurn now thread request).2 ≠ .hit found) ∧
      ∀ payload probesHold found,
        (world.cache.lookupRecheck thread request payload probesHold).2 = .hit found →
        found = payload ∧ probesHold = true ∧ ∃ entry,
          world.cache.slots request.key = some (.ready entry) ∧
          entry.context = request.context ∧ entry.inputHash = request.inputHash ∧
          extract request entry.value = some payload := by
  intro world world'
  have hsound : world.Sound := sound_run events
  refine ⟨?_, ?_, ?_, fun thread request => ⟨?_, fun payload probesHold =>
    (lookupRecheck_spec payload probesHold).2⟩⟩
  · intro key entry hready hnew
    by_cases hevent : ∃ held value cancel, event = .store held value cancel
    · obtain ⟨held, value, cancel, rfl⟩ := hevent
      change (world.step _).cache.slots key = _ at hready
      rw [World.step] at hready
      split_ifs at hready with hheld
      · rcases hsound.store_cases hadvances hresets hheld value cancel with
          heq | ⟨hdetached, rfl, hrecords, hepoch, hreset, heq⟩
        · exact absurd (heq ▸ hready) hnew
        · rw [heq] at hready
          by_cases hkey : key = held.claim.key
          · subst hkey
            simp only [update_self, Option.some.injEq, Slot.ready.injEq] at hready
            exact ⟨held, hheld, value, rfl, hdetached, rfl, hrecords, hepoch, hreset, hready.symm⟩
          · exact absurd (by simpa [hkey] using hready) hnew
      · exact absurd hready hnew
    · push Not at hevent
      exact absurd (ready_of_step hevent hready) hnew
  · intro held hheld hevent
    -- a store and a drop alike either change nothing or the slot of a recorded claim
    have hcases : world'.cache = world.cache ∨
        (held.claim.detached = false ∧ world.cache.records held.claim = true ∧ ∃ slot,
          world'.cache = { world.cache with
            slots := update world.cache.slots held.claim.key slot }) := by
      change (world.step event).cache = _ ∨ (_ ∧ _ ∧ ∃ slot, (world.step event).cache = _)
      rcases hevent with ⟨value, cancel, rfl⟩ | rfl
      · rw [World.step, if_pos hheld]
        exact (world.cache.store_cases held.claim value cancel).imp_right
          fun ⟨hdetached, _, _, hrecords, _, heq⟩ => ⟨hdetached, hrecords, _, heq⟩
      · rw [World.step, if_pos hheld]
        exact (world.cache.dropClaim_cases held.claim).imp_right
          fun ⟨hdetached, hrecords, heq⟩ => ⟨hdetached, hrecords, _, heq⟩
    rcases hcases with heq | ⟨hdetached, hrecords, slot, heq⟩
    · rw [heq]
      exact ⟨fun _ => rfl, fun _ _ => rfl, fun _ _ _ h => h, fun _ _ h => h⟩
    · rw [heq]
      refine ⟨fun hbad => ?_, hsound.own_slot hmade hheld hrecords slot⟩
      simp [hdetached, hrecords] at hbad
  · rintro held value cancel rfl hbad
    change (world.step _).cache.slots = _
    rw [World.step]
    split_ifs with hheld
    · rcases hsound.store_cases hadvances hresets hheld value cancel with
        heq | ⟨-, rfl, -, hepoch, hreset, -⟩
      · rw [heq]
      · simp [hepoch, hreset] at hbad
    · rfl
  · intro now found hhit
    unfold lookupTurn compute at hhit
    dsimp only at hhit
    repeat' split at hhit
    all_goals cases hhit

/-! ## Claims that are not what they seem -/

def unitRequest : Request Unit where
  key := ⟨.unit, "file:///a.pas", 0⟩
  context := ()
  inputHash := 7
  role := ⟨false, some 0, false, none⟩
  snapshot := none

/-- Nothing is cancelled, or every work with a flag is. -/
def flagsSet (cancelled : Bool) : Surroundings := ⟨fun _ => cancelled, false, 0⟩

/-- Thread 0 claims the unit. -/
def claimUnit : List (Event Unit Unit) := [.start 0 unitRequest, .turn 0 (flagsSet false)]

def unitClaim : Held Unit := ⟨⟨unitRequest.key, 0, 0, 0, (), 7, false⟩, 0, 0, 0⟩

def unitValue : Value Unit := ⟨.unit, ()⟩

def unitEntry : Entry Unit Unit := ⟨unitValue, (), 7⟩

theorem only_current_claim_fills_unit : let world : World Unit Unit := initial.run claimUnit
    let world' := world.step (.store unitClaim unitValue false)
    world'.cache.slots unitRequest.key = some (.ready unitEntry) ∧
    ∃ held ∈ world.held, ∃ value, Event.store unitClaim unitValue false = .store held value false ∧
      held.claim.detached = false ∧ held.claim.key = unitRequest.key ∧
      world.cache.records held.claim ∧
      held.epochAt = world.advances ∧ held.resetAt = world.resets ∧
      unitEntry = ⟨value, held.claim.context, held.claim.inputHash⟩ := by
  have hready : ((initial.run claimUnit : World Unit Unit).step
      (.store unitClaim unitValue false)).cache.slots unitRequest.key =
      some (.ready unitEntry) := by decide +kernel
  exact ⟨hready, (only_current_claim_fills claimUnit (.store unitClaim unitValue false)
    (by decide +kernel) (by decide +kernel) (by decide +kernel)).1 _ _ hready (by decide +kernel)⟩

lemma run_append (world : World C V) (first second : List (Event C V)) :
    world.run (first ++ second) = (world.run first).run second :=
  foldl_append

/-- What a block of events carries over, a run of such blocks does. -/
lemma run_blocks {P : Nat → World C V → Prop} {block : List (Event C V)}
    (hblock : ∀ n world, P n world → P (n + 1) (world.run block)) {world : World C V}
    (h : P 0 world) (n : Nat) : P n (world.run (replicate n block).flatten) := by
  induction n with
  | zero => exact h
  | succ n ih =>
    rw [replicate_succ', flatten_append, run_append, flatten_singleton]
    exact hblock n _ ih

/-- The unit is computed under the claim of thread 0. -/
def unitSlots : Key → Option (Slot Unit Unit) :=
  update (fun _ => none) unitRequest.key (some (.computing 0 7 0 ⟨0, unitRequest.role⟩))

/-- Thread 0 still has its claim, and the counters stand where they stand. -/
structure StillClaimed (epoch generation next : Nat) (world : World Unit Unit) : Prop where
  slots : world.cache.slots = unitSlots
  epoch : world.cache.invalidationEpoch = epoch % 2 ^ 64
  generation : world.cache.generation = generation % 2 ^ 64
  next : world.cache.nextClaim = next % 2 ^ 64
  idle : world.phases 1 = .idle
  made : 0 < world.made
  held : unitClaim ∈ world.held

lemma stillClaimed_claimUnit : StillClaimed 0 0 1 (initial.run claimUnit) :=
  ⟨rfl, rfl, rfl, rfl, rfl, by decide +kernel, by decide +kernel⟩

/-- Thread 1 looks the unit up. -/
def lookUnit (inputHash : Nat) (cancelled : Bool) : List (Event Unit Unit) :=
  [.start 1 { unitRequest with inputHash }, .turn 1 (flagsSet cancelled)]

section StillClaimed

variable {world : World Unit Unit} {epoch gen next : Nat}

lemma run_lookUnit (hidle : world.phases 1 = .idle) (inputHash : Nat) (cancelled : Bool) :
    let request := { unitRequest with inputHash }
    world.run (lookUnit inputHash cancelled) = (world.setPhase 1 (.looking request)).settle 1
      request (world.cache.lookupTurn (flagsSet cancelled) 1 request) := by
  intro request
  have hstart : world.step (.start 1 request) = world.setPhase 1 (.looking request) := by
    rw [World.step, hidle]
    exact if_pos (Nat.zero_le _)
  have hrun : world.run (lookUnit inputHash cancelled) =
      (world.step (.start 1 request)).step (.turn 1 (flagsSet cancelled)) := rfl
  rw [hrun, hstart, World.step]
  simp [World.setPhase]

section

variable (h : StillClaimed epoch gen next world)

include h

lemma StillClaimed.overflow : StillClaimed (epoch + 1) gen next (world.run [.overflow]) := by
  refine ⟨?_, (congrArg wrappingSucc h.epoch).trans (wrappingSucc_mod epoch), h.generation, h.next,
    h.idle, h.made, h.held⟩
  funext key
  have hrun : (world.run [.overflow]).cache.slots =
      (world.cache.removeDoomed fun _ => true).slots := rfl
  rw [hrun, removeDoomed, h.slots]
  by_cases hkey : key = unitRequest.key
  · subst hkey
    rfl
  · simp [unitSlots, hkey]

lemma StillClaimed.retain : StillClaimed epoch (gen + 1) next (world.run [.retain fun _ => true]) :=
  ⟨h.slots, h.epoch, (congrArg wrappingSucc h.generation).trans (wrappingSucc_mod gen),
    h.next, h.idle, h.made, h.held⟩

/-- A lookup with another input computes beside the claim. -/
lemma StillClaimed.computesBeside :
    StillClaimed epoch gen (next + 1) (world.run (lookUnit 8 false)) := by
  obtain ⟨⟨_, _, g, e, n⟩, _, held, _, _, _⟩ := world
  obtain ⟨rfl, rfl, rfl, rfl, hidle, hmade, hheld⟩ := h
  rw [run_lookUnit hidle]
  exact ⟨rfl, rfl, rfl, wrappingSucc_mod next, rfl, Nat.succ_pos _, mem_cons_of_mem _ hheld⟩

/-- With the epoch and the generation back at zero the claim is stored. -/
lemma StillClaimed.store (hepoch : epoch % 2 ^ 64 = 0) (hgen : gen % 2 ^ 64 = 0) :
    (world.step (.store unitClaim unitValue false)).cache.slots unitRequest.key =
      some (.ready unitEntry) := by
  obtain ⟨⟨slots, _, g, e, n⟩, _, held, _, _, _⟩ := world
  obtain ⟨rfl, rfl, rfl, -, -, -, hheld⟩ := h
  rw [World.step, if_pos hheld, hepoch, hgen]
  rfl

/-- With the claim numbers back at zero a take-over gets the number of the claim it replaces. -/
lemma StillClaimed.takeOver (hgen : gen % 2 ^ 64 = 0) (hnext : next % 2 ^ 64 = 0) :
    let world' := world.run (lookUnit 7 true)
    ∃ other ∈ world'.held, other ≠ unitClaim ∧ world'.cache.records other.claim = true ∧
      (world'.step (.drop unitClaim)).cache.records other.claim = false := by
  obtain ⟨⟨_, _, g, e, n⟩, _, held, _, _, _⟩ := world
  obtain ⟨rfl, rfl, rfl, rfl, hidle, hmade, hheld⟩ := h
  rw [run_lookUnit hidle, hgen, hnext]
  refine ⟨_, mem_cons_self, ?_, rfl, ?_⟩
  · exact fun heq => hmade.ne' (congrArg Held.serial heq)
  · rw [World.step, if_pos]
    · rfl
    · exact mem_cons_of_mem _ hheld

end

end StillClaimed

/-- A claim is dropped after it was cancelled and gives up its slot; an entry is stored across a
reset between the snapshot and the claim; and when a counter has wrapped, a claim is stored across
invalidations or resets, and a drop takes the state of another claim. -/
theorem outdated_claims_fill :
    (let world : World Unit Unit := initial.run (claimUnit ++ [.store unitClaim unitValue true])
     world.cache.records unitClaim.claim = true ∧
      (world.step (.drop unitClaim)).cache.slots unitRequest.key = none) ∧
    (initial.run [.start 0 { unitRequest with snapshot := some 0 }, .retain fun _ => true,
      .turn 0 (flagsSet false), .store ⟨{ unitClaim.claim with generation := 1 }, 0, 0, 1⟩
        unitValue false] : World Unit Unit).cache.slots unitRequest.key = some (.ready unitEntry) ∧
    (∀ event : Event Unit Unit, event = .overflow ∨ event = .retain (fun _ => true) →
      ((initial.run (claimUnit ++ (replicate (2 ^ 64) [event]).flatten)).step
        (.store unitClaim unitValue false)).cache.slots unitRequest.key = some (.ready unitEntry)) ∧
    let world : World Unit Unit := initial.run
      (claimUnit ++ (replicate (2 ^ 64 - 1) (lookUnit 8 false)).flatten ++ lookUnit 7 true)
    ∃ other ∈ world.held, other ≠ unitClaim ∧ world.cache.records other.claim = true ∧
      (world.step (.drop unitClaim)).cache.records other.claim = false := by
  refine ⟨by decide +kernel, by decide +kernel, ?_, ?_⟩
  · rintro event (rfl | rfl)
    · have h := run_blocks (P := fun n => StillClaimed n 0 1) (fun _ _ => StillClaimed.overflow)
        stillClaimed_claimUnit (2 ^ 64)
      rw [run_append]
      exact h.store (Nat.mod_self _) rfl
    · have h := run_blocks (P := fun n => StillClaimed 0 n 1) (fun _ _ => StillClaimed.retain)
        stillClaimed_claimUnit (2 ^ 64)
      rw [run_append]
      exact h.store rfl (Nat.mod_self _)
  · have h := run_blocks (P := fun n => StillClaimed 0 0 (n + 1))
      (fun _ _ => StillClaimed.computesBeside) stillClaimed_claimUnit (2 ^ 64 - 1)
    rw [run_append, run_append]
    exact h.takeOver rfl (by norm_num)

end World

end Lint4d.ProjectCache
