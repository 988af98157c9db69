import Lint4d.Lsp.OutboundCounters

/-!
# Accepted output is kept

Whatever the callers send, flush and discard, and whenever the channel takes a
message or not, the two queues behave as one: a ledger of the accepted messages
says what has been sent and what still waits.
-/

namespace Lint4d.Lsp

open Lint4d.Lib OutboundQueue List

variable {Body Params Url : Type} {answer : Except OutputError Bool}
  {queue : OutboundQueue Body Params Url}

/-! ## One call -/

variable {pend : PendingOutboundMessage Body Params Url}
  {msgs rest added added' : List (PendingOutboundMessage Body Params Url)}

/-- When nothing is pending, the first deferred message fits. -/
lemma OutboundQueue.Sound.first_deferred_fits (h : queue.Sound) (hempty : queue.pending = [])
    (hfirst : pend ∈ queue.deferred.head?) : queue.canFitPending pend = true := by
  obtain ⟨hclass, hbytes⟩ := h.deferrable pend (mem_of_mem_head? hfirst)
  obtain ⟨h₁, h₂, h₃, h₄, -⟩ := h.exact
  rw [hempty] at h₁ h₂ h₃ h₄
  have hcontrol : maxPendingOutboundControlBytes ≤ maxPendingOutboundBytes := by decide
  refine canFitPending_iff.2 ⟨?_, ?_, fun hdata => absurd hdata hclass, fun _ => ⟨?_, ?_⟩⟩
  · rw [h₂, h₃, countMessages_nil, countMessages_nil]
    decide
  · rw [h₁, weight_nil]
    omega
  · rw [h₃, countMessages_nil]
    decide
  · rw [h₄, weight_nil]
    omega

namespace Output

/-- The messages that were queued, and those added behind them, are sent from the front on. -/
def Moves (output output' : Output Body Params Url)
    (added : List (PendingOutboundMessage Body Params Url)) : Prop :=
  ∃ handed, output'.channel.sent = output.channel.sent ++ handed.map (·.message) ∧
    output.queue.queued ++ added = handed ++ output'.queue.queued

lemma Moves.refl (output : Output Body Params Url) : output.Moves output [] :=
  ⟨[], by simp, by simp⟩

variable {first second third : Output Body Params Url}

lemma Moves.trans (h : first.Moves second added) (h' : second.Moves third added') :
    first.Moves third (added ++ added') := by
  obtain ⟨handed, hsent, hqueued⟩ := h
  obtain ⟨handed', hsent', hqueued'⟩ := h'
  refine ⟨handed ++ handed', ?_, ?_⟩
  · rw [hsent', hsent, map_append, append_assoc]
  · rw [← append_assoc, hqueued, append_assoc, hqueued', append_assoc]

/-- A step of a flush: messages leave at the front, and nothing else changes. -/
structure Advances (output output' : Output Body Params Url) : Prop where
  moves : output.Moves output' []
  sound : output'.queue.Sound
  answers : output'.channel.answers = output.channel.answers
  asked : output.channel.asked ≤ output'.channel.asked
  generation : output'.queue.nextDiagnosticPublicationGeneration =
    output.queue.nextDiagnosticPublicationGeneration

lemma Advances.trans (h : first.Advances second) (h' : second.Advances third) :
    first.Advances third :=
  ⟨h.moves.trans h'.moves, h'.sound, h'.answers.trans h.answers, h.asked.trans h'.asked,
    h'.generation.trans h.generation⟩

/-- The channel was asked, and its last answer was that it is full. -/
def Refused (output output' : Output Body Params Url) : Prop :=
  output.channel.asked < output'.channel.asked ∧
    output.channel.answers (output'.channel.asked - 1) = .full

lemma Advances.refused (h : first.Advances second) (h' : second.Refused third) :
    first.Refused third :=
  ⟨h.asked.trans_lt h'.1, h.answers ▸ h'.2⟩

/-- The channel takes a message or is full, but is never gone. -/
def Connected (output : Output Body Params Url) : Prop :=
  ∀ k, output.channel.answers k ≠ .disconnected

lemma Advances.connected {output output' : Output Body Params Url} (h : output.Advances output')
    (hconn : output.Connected) : output'.Connected := by
  intro k
  rw [h.answers]
  exact hconn k

variable {output : Output Body Params Url}

/-- The first pending message is handed over. -/
lemma advances_popPending (hsound : output.queue.Sound)
    (hpend : output.queue.pending = pend :: rest) :
    output.Advances ⟨output.queue.popPending pend rest, { output.channel with
      asked := output.channel.asked + 1, sent := output.channel.sent ++ [pend.message] }⟩ ∧
    (output.queue.popPending pend rest).pending = rest ∧
    (output.queue.popPending pend rest).deferred = output.queue.deferred := by
  have hqueue : (output.queue.popPending pend rest).pending = rest ∧
      (output.queue.popPending pend rest).deferred = output.queue.deferred ∧
      (output.queue.popPending pend rest).nextDiagnosticPublicationGeneration =
        output.queue.nextDiagnosticPublicationGeneration := by
    unfold popPending
    cases pend.outboundClass <;> exact ⟨rfl, rfl, rfl⟩
  obtain ⟨hrest, hdefer, hgen⟩ := hqueue
  refine ⟨⟨⟨[pend], rfl, ?_⟩, hsound.popPending hpend, rfl, Nat.le_succ _, hgen⟩, hrest, hdefer⟩
  simp [queued, hpend, hrest, hdefer]

/-- The pending messages are sent, all of them unless the channel is full. -/
lemma sendPending_spec (hpend : output.queue.pending = msgs) (hsound : output.queue.Sound)
    (hconn : output.Connected) :
    ∃ sent, ((output.sendPending msgs = (sent, none) ∧ sent.queue.pending = []) ∨
        (output.sendPending msgs = (sent, some (.ok ())) ∧ output.Refused sent)) ∧
      output.Advances sent ∧ sent.queue.deferred = output.queue.deferred := by
  induction msgs generalizing output with
  | nil => exact ⟨output, .inl ⟨rfl, hpend⟩, ⟨.refl _, hsound, rfl, le_rfl, rfl⟩, rfl⟩
  | cons _ _ ih =>
    rw [sendPending]
    unfold Channel.trySend
    cases hans : output.channel.answers output.channel.asked with
    | accepted =>
      obtain ⟨hstep, hrest, hdefer⟩ := advances_popPending hsound hpend
      obtain ⟨sent, hsent, hadv, hkept⟩ := ih hrest hstep.sound (hstep.connected hconn)
      refine ⟨sent, ?_, hstep.trans hadv, hkept.trans hdefer⟩
      exact hsent.imp id fun hfull => ⟨hfull.1, hstep.refused hfull.2⟩
    | full =>
      exact ⟨_, .inr ⟨rfl, Nat.lt_succ_self _, hans⟩,
        ⟨⟨[], by simp, by simp⟩, hsound, rfl, Nat.le_succ _, rfl⟩, rfl⟩
    | disconnected => exact absurd hans (hconn _)

lemma pushPending_spec (queue : OutboundQueue Body Params Url)
    (pend : PendingOutboundMessage Body Params Url) :
    (queue.pushPending pend).pending = queue.pending ++ [pend] ∧
    (queue.pushPending pend).deferred = queue.deferred ∧
    (queue.pushPending pend).nextDiagnosticPublicationGeneration =
      queue.nextDiagnosticPublicationGeneration := by
  unfold pushPending
  cases pend.outboundClass <;> exact ⟨rfl, rfl, rfl⟩

/-- The first deferred message becomes the last pending one. -/
lemma advances_popDeferred (hsound : output.queue.Sound)
    (hdefer : output.queue.deferred = pend :: rest)
    (hfits : output.queue.canFitPending pend = true) :
    output.Advances
      { output with queue := (output.queue.popDeferred pend rest).pushPending pend } ∧
    ((output.queue.popDeferred pend rest).pushPending pend).deferred = rest := by
  have hqueue : (output.queue.popDeferred pend rest).pending = output.queue.pending ∧
      (output.queue.popDeferred pend rest).deferred = rest ∧
      (output.queue.popDeferred pend rest).nextDiagnosticPublicationGeneration =
        output.queue.nextDiagnosticPublicationGeneration ∧
      (output.queue.popDeferred pend rest).canFitPending pend =
        output.queue.canFitPending pend := by
    unfold popDeferred
    cases pend.outboundClass.isResult <;> exact ⟨rfl, rfl, rfl, rfl⟩
  obtain ⟨hpend, hrest, hgen, hsame⟩ := hqueue
  obtain ⟨hlast, hkept, hstill⟩ := pushPending_spec (output.queue.popDeferred pend rest) pend
  have hpop := hsound.popDeferred hdefer
  refine ⟨⟨⟨[], by simp, ?_⟩, hpop.pushPending (hsame.trans hfits), rfl, le_rfl, ?_⟩,
    hkept.trans hrest⟩
  · simp [queued, hlast, hkept, hpend, hrest, hdefer]
  · exact hstill.trans hgen

/-- The loop stops because nothing is left or because the channel is full: a deferred message
always fits once nothing is pending. -/
lemma flushFrom_spec (hdefer : output.queue.deferred = msgs) (hsound : output.queue.Sound)
    (hconn : output.Connected) :
    ∃ flushed, flushFrom msgs output = (flushed, .ok ()) ∧ output.Advances flushed ∧
      (flushed.queue.queued = [] ∨ output.Refused flushed) := by
  induction msgs generalizing output with
  | nil =>
    obtain ⟨sent, ⟨hsend, hempty⟩ | ⟨hsend, hfull⟩, hadv, hkept⟩ := sendPending_spec rfl hsound hconn
    all_goals rw [flushFrom, hsend]
    · refine ⟨sent, rfl, hadv, .inl ?_⟩
      rw [queued, hempty, hkept, hdefer]
      rfl
    · exact ⟨sent, rfl, hadv, .inr hfull⟩
  | cons _ _ ih =>
    obtain ⟨sent, ⟨hsend, hempty⟩ | ⟨hsend, hfull⟩, hadv, hkept⟩ := sendPending_spec rfl hsound hconn
    all_goals rw [flushFrom, hsend]
    · have hdeferred := hkept.trans hdefer
      have hfits := hadv.sound.first_deferred_fits hempty (by rw [hdeferred]; rfl)
      dsimp only
      rw [if_pos hfits]
      obtain ⟨hmoved, hrest⟩ := advances_popDeferred hadv.sound hdeferred hfits
      have hstep := hadv.trans hmoved
      obtain ⟨flushed, hflushed, hall, hleft⟩ := ih hrest hstep.sound (hstep.connected hconn)
      exact ⟨flushed, hflushed, hstep.trans hall, hleft.imp id hstep.refused⟩
    · exact ⟨sent, rfl, hadv, .inr hfull⟩

/-- A flush hands over messages from the front of the queues, all of them unless the channel is
full. -/
lemma flush_spec (hsound : output.queue.Sound) (hconn : output.Connected) :
    ∃ flushed, output.flush = (flushed, .ok ()) ∧ output.Advances flushed ∧
      (flushed.queue.queued = [] ∨ output.Refused flushed) :=
  flushFrom_spec rfl hsound hconn

/-! ## Enqueueing -/

variable (wire : Wire Body Params Url)

/-- What a message brings with it into the queue, where `generation` is the next one. -/
structure Stamps (next : Nat) (sent : Message Body Params)
    (pending : PendingOutboundMessage Body Params Url) : Prop where
  message : pending.message = sent
  uri : pending.diagnosticUri = diagnosticPublicationUri wire sent
  generation : (diagnosticPublicationUri wire sent).isSome →
    pending.diagnosticGeneration = some next

/-- What a call of `enqueue` does: the message was taken exactly when the answer is `true`. -/
structure Enqueues (message : Message Body Params) (output output' : Output Body Params Url)
    (answer : Except OutputError Bool) : Prop where
  refused : answer ≠ .ok true → output.Moves output' []
  taken : answer = .ok true → ∃ pending, output.Moves output' [pending] ∧
    Stamps wire output.queue.nextDiagnosticPublicationGeneration message pending ∧
    ((diagnosticPublicationUri wire message).isSome →
      output'.queue.nextDiagnosticPublicationGeneration =
        saturatingAdd output.queue.nextDiagnosticPublicationGeneration 1)
  sound : output'.queue.Sound
  answers : output'.channel.answers = output.channel.answers
  generation : output'.queue.nextDiagnosticPublicationGeneration =
      output.queue.nextDiagnosticPublicationGeneration ∨
    output'.queue.nextDiagnosticPublicationGeneration =
      saturatingAdd output.queue.nextDiagnosticPublicationGeneration 1

variable {wire}

/-- A flush before the call belongs to the call. -/
lemma Advances.enqueues {msg : Message Body Params} (h : first.Advances second)
    (h' : Enqueues wire msg second third answer) :
    Enqueues wire msg first third answer := by
  refine ⟨fun hans => h.moves.trans (h'.refused hans), ?_, h'.sound,
    h'.answers.trans h.answers, h.generation ▸ h'.generation⟩
  intro hans
  obtain ⟨pend, hmoves, hstamps, hnext⟩ := h'.taken hans
  exact ⟨pend, h.moves.trans hmoves, h.generation ▸ hstamps, h.generation ▸ hnext⟩

lemma overflow_spec (hsound : output.queue.Sound)
    (hbytes : pend.outboundClass ≠ .data → pend.bytes ≤ maxPendingOutboundControlBytes) :
    ((output.overflow pend).2 ≠ .ok true ∧ (output.overflow pend).1 = output) ∨
    ((output.overflow pend).2 = .ok true ∧ output.Moves (output.overflow pend).1 [pend] ∧
      (output.overflow pend).1.queue.Sound ∧
      (output.overflow pend).1.channel.answers = output.channel.answers ∧
      (output.overflow pend).1.queue.nextDiagnosticPublicationGeneration =
        output.queue.nextDiagnosticPublicationGeneration) := by
  have hdefer : pend.outboundClass ≠ .data →
      output.overflow pend = ({ output with queue := (output.queue.defer pend).1 },
        (output.queue.defer pend).2) := by
    intro hclass
    unfold overflow
    cases h : pend.outboundClass with
    | data => exact absurd h hclass
    | control | result => rfl
  by_cases hclass : pend.outboundClass = .data
  · left
    simp [overflow, hclass]
  rw [hdefer hclass]
  cases hroom : output.queue.deferredFull pend with
  | true =>
    left
    simp [defer, hroom]
  | false =>
    right
    have hkept := hsound.defer hroom hclass (hbytes hclass)
    have hpushed : (output.queue.defer pend).2 = .ok true ∧
        (output.queue.defer pend).1.pending = output.queue.pending ∧
        (output.queue.defer pend).1.deferred = output.queue.deferred ++ [pend] ∧
        (output.queue.defer pend).1.nextDiagnosticPublicationGeneration =
          output.queue.nextDiagnosticPublicationGeneration := by
      simp only [defer, hroom, Bool.false_eq_true, if_false, true_and]
      cases pend.outboundClass.isResult <;> exact ⟨rfl, rfl, rfl⟩
    obtain ⟨hok, hpend, hdeferred, hgen⟩ := hpushed
    refine ⟨hok, ⟨[], by simp, ?_⟩, hkept, rfl, hgen⟩
    simp [queued, hpend, hdeferred]

lemma stamp_spec (wire : Wire Body Params Url) (msg : Message Body Params) (bytes : Nat)
    (outboundClass : OutboundClass) (queue : OutboundQueue Body Params Url) :
    ∃ pend next, stamp wire msg bytes outboundClass queue =
        (pend, { queue with nextDiagnosticPublicationGeneration := next }) ∧
      pend.bytes = bytes ∧ pend.outboundClass = outboundClass ∧
      Stamps wire queue.nextDiagnosticPublicationGeneration msg pend ∧
      (next = queue.nextDiagnosticPublicationGeneration ∨
        next = saturatingAdd queue.nextDiagnosticPublicationGeneration 1) ∧
      ((diagnosticPublicationUri wire msg).isSome →
        next = saturatingAdd queue.nextDiagnosticPublicationGeneration 1) := by
  unfold stamp
  dsimp only
  split_ifs with huri
  · exact ⟨_, _, rfl, rfl, rfl, ⟨rfl, rfl, fun _ => rfl⟩, .inr rfl, fun _ => rfl⟩
  · exact ⟨_, queue.nextDiagnosticPublicationGeneration, rfl, rfl, rfl,
      ⟨rfl, rfl, fun h => absurd h huri⟩, .inl rfl, fun h => absurd h huri⟩

variable (wire) in
lemma enqueue_spec (hsound : output.queue.Sound) (hconn : output.Connected)
    (msg : Message Body Params) (outboundClass : OutboundClass) :
    Enqueues wire msg output (output.enqueue wire msg outboundClass).1
      (output.enqueue wire msg outboundClass).2 := by
  obtain ⟨flushed, hflushed, hflush, -⟩ := flush_spec hsound hconn
  unfold enqueue
  rw [hflushed]
  apply hflush.enqueues
  have hunchanged : ∀ answer ≠ .ok true, Enqueues wire msg flushed flushed answer :=
    fun _ hans => ⟨fun _ => .refl _, fun h => absurd h hans, hflush.sound, rfl, .inl rfl⟩
  cases hlen : wire.encodedLength msg with
  | error error => exact hunchanged _ nofun
  | ok bytes =>
    dsimp only
    by_cases hlarge : bytes > maxPendingOutboundBytes ∨
        (outboundClass.isControl ∧ bytes > maxPendingOutboundControlBytes)
    · rw [if_pos hlarge]
      exact hunchanged _ nofun
    rw [if_neg hlarge]
    obtain ⟨pend, next, hstamp, hbytes, hclass, hstamps, hnext, hsome⟩ :=
      stamp_spec wire msg bytes outboundClass flushed.queue
    rw [hstamp]
    -- the queue with the next generation holds the same messages
    let stamped : Output Body Params Url :=
      { flushed with queue := { flushed.queue with nextDiagnosticPublicationGeneration := next } }
    have hstamped : stamped.queue.Sound := hflush.sound.restamp next
    have hsmall : pend.outboundClass ≠ .data → pend.bytes ≤ maxPendingOutboundControlBytes := by
      intro hcontrol
      rw [hclass] at hcontrol
      have hisControl : outboundClass.isControl = true := by
        cases outboundClass with
        | data => exact absurd rfl hcontrol
        | control | result => rfl
      rw [hbytes]
      exact Nat.le_of_not_lt fun h => hlarge (.inr ⟨hisControl, h⟩)
    have htaken : ∀ after : Output Body Params Url, stamped.Moves after [pend] →
        after.queue.Sound → after.channel.answers = flushed.channel.answers →
        after.queue.nextDiagnosticPublicationGeneration = next →
        Enqueues wire msg flushed after (.ok true) := by
      intro after hmoves hafter hanswers hgen
      refine ⟨fun h => absurd rfl h, fun _ => ⟨pend, hmoves, hstamps, ?_⟩, hafter, hanswers, ?_⟩
      · exact fun huri => hgen.trans (hsome huri)
      · rw [hgen]
        exact hnext
    have hoverflow : Enqueues wire msg flushed (stamped.overflow pend).1
        (stamped.overflow pend).2 := by
      rcases overflow_spec hstamped hsmall with
        ⟨hans, hsame⟩ | ⟨hans, hmoves, hafter, hanswers, hgen⟩
      · rw [hsame]
        exact ⟨fun _ => .refl _, fun h => absurd h hans, hstamped, rfl, hnext⟩
      · rw [hans]
        exact htaken _ hmoves hafter hanswers hgen
    split_ifs with hdefer hfits
    · exact hoverflow
    · -- room among the pending messages: the message is pushed and the queue flushed again
      obtain ⟨hlast, hkept, hgen⟩ := pushPending_spec stamped.queue pend
      let pushed : Output Body Params Url :=
        { stamped with queue := stamped.queue.pushPending pend }
      have hpush : pushed.queue.Sound := hstamped.pushPending hfits
      have hmoves : stamped.Moves pushed [pend] := by
        refine ⟨[], by simp [pushed], ?_⟩
        have hnone : stamped.queue.deferred = [] := not_not.1 hdefer
        simp [pushed, queued, hlast, hkept, hnone]
      obtain ⟨after, hend, hagain, -⟩ := flush_spec hpush (hflush.connected hconn)
      rw [show flush { stamped with queue := stamped.queue.pushPending pend } = _ from hend]
      exact htaken after (hmoves.trans hagain.moves) hagain.sound hagain.answers
        (hagain.generation.trans hgen)
    · exact hoverflow

end Output

/-! ## Sessions -/

/-- A document is named by a discard: one of those listed, or any without a list. -/
def names [DecidableEq Url] (uris : Option (Finset Url)) (uri : Option Url) : Bool :=
  uri.any fun uri =>
    match uris with
    | some uris => uri ∈ uris
    | none => true

inductive OutboundCall (Body Params Url : Type) where
  | enqueue (message : Message Body Params) (outboundClass : OutboundClass)
  | flush
  | discard (uris : Option (Finset Url))

/-- The queue with its channel, and the ledger of what the callers were told. -/
structure Session (Body Params Url : Type) where
  output : Output Body Params Url
  ledger : Ledger (Message Body Params) := []

namespace Session

def start (answers : Nat → TrySend) : Session Body Params Url where
  output := { queue := {}, channel := { answers := answers } }

/-- How many messages the channel has taken since. -/
def handed (session : Session Body Params Url) (output : Output Body Params Url) : Nat :=
  output.channel.sent.length - session.output.channel.sent.length

/-- A message counts as accepted when `enqueue` answers `true`. -/
def record (message : Message Body Params) (ledger : Ledger (Message Body Params)) :
    Except OutputError Bool → Ledger (Message Body Params)
  | .ok true => ledger.accept message
  | _ => ledger

/-- One call.  The ledger is told how many messages the channel has taken, not which. -/
def step [DecidableEq Url] (wire : Wire Body Params Url) (session : Session Body Params Url) :
    OutboundCall Body Params Url → Session Body Params Url
  | .enqueue message outboundClass =>
    let (output, answer) := session.output.enqueue wire message outboundClass
    ⟨output, (record message session.ledger answer).handOver (session.handed output)⟩
  | .flush =>
    let output := session.output.flush.1
    ⟨output, session.ledger.handOver (session.handed output)⟩
  | .discard uris =>
    ⟨{ session.output with
        queue := (session.output.queue.discardDiagnosticPublicationsMatching uris).1 },
      session.ledger.discard fun message => names uris (diagnosticPublicationUri wire message)⟩

def run [DecidableEq Url] (wire : Wire Body Params Url)
    (calls : List (OutboundCall Body Params Url)) (session : Session Body Params Url) :
    Session Body Params Url :=
  calls.foldl (step wire) session

/-- A publication that waits is of an older generation than the next one. -/
def Stamped (wire : Wire Body Params Url) (next : Nat)
    (pending : PendingOutboundMessage Body Params Url) : Prop :=
  pending.diagnosticUri = diagnosticPublicationUri wire pending.message ∧
    (pending.diagnosticUri.isSome →
      ∃ generation < next, pending.diagnosticGeneration = some generation)

/-- What holds after `count` calls. -/
structure Consistent (wire : Wire Body Params Url) (count : Nat)
    (session : Session Body Params Url) : Prop where
  sound : session.output.queue.Sound
  connected : session.output.Connected
  generation : session.output.queue.nextDiagnosticPublicationGeneration ≤ count
  stamped : ∀ pending ∈ session.output.queue.queued,
    Stamped wire session.output.queue.nextDiagnosticPublicationGeneration pending
  inOrder : session.ledger.InOrder
  sent : session.ledger.sent = session.output.channel.sent
  waiting : session.ledger.waiting = session.output.queue.queued.map (·.message)

variable {wire : Wire Body Params Url} {session : Session Body Params Url} {count : Nat}

lemma Stamped.mono {next next' : Nat} (h : Stamped wire next pend) (hle : next ≤ next') :
    Stamped wire next' pend := by
  refine ⟨h.1, fun huri => ?_⟩
  obtain ⟨generation, hlt, heq⟩ := h.2 huri
  exact ⟨generation, Nat.lt_of_lt_of_le hlt hle, heq⟩

/-- The ledger follows the queues when it hands over as many messages as the channel took. -/
lemma Consistent.moved (h : Consistent wire count session) {after : Output Body Params Url}
    (hmoves : session.output.Moves after added) (hsound : after.queue.Sound)
    (hanswers : after.channel.answers = session.output.channel.answers)
    (hgrows : session.output.queue.nextDiagnosticPublicationGeneration ≤
      after.queue.nextDiagnosticPublicationGeneration)
    (hlimit : after.queue.nextDiagnosticPublicationGeneration ≤ count + 1)
    (hadded : ∀ pend ∈ added, Stamped wire after.queue.nextDiagnosticPublicationGeneration pend)
    {ledger : Ledger (Message Body Params)} (hinOrder : ledger.InOrder)
    (hsent : ledger.sent = session.output.channel.sent)
    (hwait : ledger.waiting = (session.output.queue.queued ++ added).map (·.message)) :
    Consistent wire (count + 1) ⟨after, ledger.handOver (session.handed after)⟩ := by
  obtain ⟨handed, hhanded, hqueued⟩ := hmoves
  have hcount : session.handed after = (handed.map (·.message)).length := by
    rw [Session.handed, hhanded, length_append, Nat.add_sub_cancel_left]
  rw [hqueued, map_append] at hwait
  refine ⟨hsound, fun k => hanswers ▸ h.connected k, hlimit, ?_, hinOrder.handOver _, ?_, ?_⟩
  · intro pend hpend
    have hmem : pend ∈ session.output.queue.queued ++ added := hqueued ▸ mem_append_right _ hpend
    rcases mem_append.1 hmem with hmem | hmem
    · exact (h.stamped pend hmem).mono hgrows
    · exact hadded pend hmem
  · rw [Ledger.sent_handOver _ hinOrder, hsent, hwait, hcount, take_left, hhanded]
  · rw [Ledger.waiting_handOver, hwait, hcount, drop_left]

lemma consistent_flush (h : Consistent wire count session) :
    Consistent wire (count + 1)
      ⟨session.output.flush.1, session.ledger.handOver (session.handed session.output.flush.1)⟩ := by
  obtain ⟨_, hflushed, hadv, -⟩ := Output.flush_spec h.sound h.connected
  rw [hflushed]
  refine h.moved hadv.moves hadv.sound hadv.answers hadv.generation.ge ?_
    (by simp) h.inOrder h.sent (by rw [append_nil, h.waiting])
  exact hadv.generation.le.trans (Nat.le_succ_of_le h.generation)

section Calls

variable [DecidableEq Url]

lemma record_of_ne (h : answer ≠ .ok true) (msg : Message Body Params)
    (ledger : Ledger (Message Body Params)) : record msg ledger answer = ledger := by
  unfold record
  split
  · exact absurd rfl h
  · rfl

lemma consistent_enqueue (h : Consistent wire count session) (hcount : count + 1 < 2 ^ 64)
    (msg : Message Body Params) (outboundClass : OutboundClass) :
    Consistent wire (count + 1) (session.step wire (.enqueue msg outboundClass)) := by
  have hlimit := h.generation
  have hnext : saturatingAdd session.output.queue.nextDiagnosticPublicationGeneration 1 =
      session.output.queue.nextDiagnosticPublicationGeneration + 1 := saturatingAdd_eq (by omega)
  rcases hcall : session.output.enqueue wire msg outboundClass with ⟨after, answer⟩
  have hstep : session.step wire (.enqueue msg outboundClass) =
      ⟨after, (record msg session.ledger answer).handOver (session.handed after)⟩ := by
    rw [step, hcall]
  have hspec : Output.Enqueues wire msg session.output after answer := by
    have hspec := Output.enqueue_spec wire h.sound h.connected msg outboundClass
    rwa [hcall] at hspec
  have hgen := hspec.generation
  rw [hstep]
  by_cases hans : answer = .ok true
  · obtain ⟨_, hmoves, hstamps, hsome⟩ := hspec.taken hans
    subst hans
    refine h.moved hmoves hspec.sound hspec.answers (by omega) (by omega) ?_
      (h.inOrder.accept msg) ?_ ?_
    · refine forall_mem_singleton.2 ⟨hstamps.message ▸ hstamps.uri, fun huri => ?_⟩
      rw [hstamps.uri] at huri
      have hstep := hsome huri
      exact ⟨_, by omega, hstamps.generation huri⟩
    · rw [record, Ledger.sent, Ledger.having_accept, if_neg (by simp)]
      exact h.sent
    · rw [record, Ledger.waiting, Ledger.having_accept, if_pos rfl, ← Ledger.waiting, h.waiting,
        map_append, map_singleton, hstamps.message]
  · rw [record_of_ne hans]
    exact h.moved (hspec.refused hans) hspec.sound hspec.answers (by omega) (by omega)
      (by simp) h.inOrder h.sent (by rw [append_nil, h.waiting])

/-- A discard removes the publications it names and nothing else. -/
lemma queued_discard (hstamped : ∀ pend ∈ queue.queued,
      Stamped wire queue.nextDiagnosticPublicationGeneration pend) (uris : Option (Finset Url)) :
    (queue.discardDiagnosticPublicationsMatching uris).1.queued = queue.queued.filter fun pend =>
      !names uris (diagnosticPublicationUri wire pend.message) := by
  have hsuperseded : ∀ pend ∈ queue.queued,
      superseded uris queue.nextDiagnosticPublicationGeneration pend =
        names uris (diagnosticPublicationUri wire pend.message) := by
    intro pend hpend
    obtain ⟨huri, hgen⟩ := hstamped pend hpend
    rw [← huri]
    unfold superseded names
    cases hdoc : pend.diagnosticUri with
    | none => rfl
    | some =>
      obtain ⟨_, hlt, heq⟩ := hgen (by rw [hdoc]; rfl)
      cases uris <;> simp [heq, hlt]
  have hfilter : (queue.discardDiagnosticPublicationsMatching uris).1.queued =
      queue.queued.filter fun pend =>
        !superseded uris queue.nextDiagnosticPublicationGeneration pend :=
    (filter_append ..).symm
  rw [hfilter]
  exact filter_congr fun pend hpend => by rw [hsuperseded pend hpend]

lemma consistent_discard (h : Consistent wire count session) (hcount : count + 1 < 2 ^ 64)
    (uris : Option (Finset Url)) :
    Consistent wire (count + 1) (session.step wire (.discard uris)) := by
  have hqueued := queued_discard h.stamped uris
  have hlimit := h.generation
  have hnext : saturatingAdd session.output.queue.nextDiagnosticPublicationGeneration 1 =
      session.output.queue.nextDiagnosticPublicationGeneration + 1 := saturatingAdd_eq (by omega)
  rw [step]
  let named (msg : Message Body Params) := names uris (diagnosticPublicationUri wire msg)
  refine ⟨h.sound.discard uris, h.connected, ?_, ?_, h.inOrder.discard named,
    (Ledger.sent_discard named).trans h.sent, ?_⟩
  · exact hnext.le.trans (Nat.succ_le_succ hlimit)
  · intro pend hpend
    rw [hqueued] at hpend
    have hgrows := Nat.le_of_lt (Nat.lt_of_lt_of_eq (Nat.lt_succ_self _) hnext.symm)
    exact (h.stamped pend (mem_filter.1 hpend).1).mono hgrows
  · rw [Ledger.waiting_discard, h.waiting, hqueued, filter_map]
    rfl

lemma consistent_step (h : Consistent wire count session) (hcount : count + 1 < 2 ^ 64)
    (call : OutboundCall Body Params Url) :
    Consistent wire (count + 1) (session.step wire call) := by
  cases call with
  | enqueue msg outboundClass => exact consistent_enqueue h hcount msg outboundClass
  | flush => exact consistent_flush h
  | discard uris => exact consistent_discard h hcount uris

lemma consistent_run (calls : List (OutboundCall Body Params Url))
    (h : Consistent wire count session) (hcount : count + calls.length < 2 ^ 64) :
    Consistent wire (count + calls.length) (session.run wire calls) := by
  induction calls generalizing session count with
  | nil => exact h
  | cons call calls ih =>
    rw [length_cons] at hcount ⊢
    have hnext := ih (consistent_step h (by omega) call) (by omega)
    rw [Nat.add_assoc, Nat.add_comm 1] at hnext
    exact hnext

omit [DecidableEq Url] in
lemma consistent_start {answers : Nat → TrySend} (hconn : ∀ k, answers k ≠ .disconnected) :
    Consistent wire 0 (start answers) := by
  refine ⟨⟨⟨rfl, rfl, rfl, rfl, rfl, rfl, rfl, rfl, rfl⟩, ?_, nofun⟩, hconn, Nat.le_refl _,
    nofun, List.Pairwise.nil, rfl, rfl⟩
  constructor <;> exact Nat.zero_le _

end Calls

end Session

/-! ## Any sequence of calls -/

/-- In every session of fewer than `2 ^ 64` calls over a channel that accepts or refuses as it
likes: the channel has got the accepted messages in their order, without those a discard took
back; the queues hold the accepted messages that wait; the counters are exact and within their
limits; nothing gets stuck, for a flush empties both queues unless the channel's last answer was
full; a discard removes the publications it names and nothing else; and a refused message is not
queued. -/
theorem accepted_output_kept [DecidableEq Url] (wire : Wire Body Params Url)
    (answers : Nat → TrySend) (hconnected : ∀ k, answers k ≠ .disconnected)
    (calls : List (OutboundCall Body Params Url)) (hcount : calls.length < 2 ^ 64) :
    let session := (Session.start answers).run wire calls
    let queue := session.output.queue
    session.output.channel.sent = session.ledger.sent ∧
    queue.queued.map (·.message) = session.ledger.waiting ∧
    queue.Exact ∧ queue.Within ∧
    (queue.pending = [] → ∀ deferred ∈ queue.deferred.head?, queue.canFitPending deferred) ∧
    (session.output.flush.2 = .ok () ∧
      (session.output.flush.1.queue.queued = [] ∨ session.output.Refused session.output.flush.1)) ∧
    (∀ uris, (queue.discardDiagnosticPublicationsMatching uris).1.queued =
      queue.queued.filter fun pending =>
        !names uris (diagnosticPublicationUri wire pending.message)) ∧
    ∀ message outboundClass, (session.output.enqueue wire message outboundClass).2 ≠ .ok true →
      (session.output.enqueue wire message outboundClass).1.queue.queued <:+ queue.queued := by
  intro session queue
  have hrun : Session.Consistent wire (0 + calls.length) session :=
    Session.consistent_run calls (Session.consistent_start hconnected) (by omega)
  refine ⟨hrun.sent.symm, hrun.waiting.symm, hrun.sound.exact, hrun.sound.within,
    fun hempty deferred hfirst => hrun.sound.first_deferred_fits hempty hfirst, ?_,
    Session.queued_discard hrun.stamped, ?_⟩
  · obtain ⟨_, hflushed, -, hleft⟩ := Output.flush_spec hrun.sound hrun.connected
    rw [hflushed]
    exact ⟨rfl, hleft⟩
  intro message outboundClass hrefused
  have hspec := Output.enqueue_spec wire hrun.sound hrun.connected message outboundClass
  obtain ⟨handed, -, hqueued⟩ := hspec.refused hrefused
  exact ⟨handed, by rw [← hqueued, append_nil]⟩

/-- A client of two documents whose messages are all short. -/
def shortWire : Wire Unit String Bool where
  encodedLength _ := .ok 10
  uriField uri := some uri
  parseUrl uri := some (uri = "file:///a.pas")

def publication : Message Unit String :=
  .notification "textDocument/publishDiagnostics" "file:///a.pas"

theorem accepted_output_kept_publication :
    let session := (Session.start fun k => if k = 0 then .accepted else .full).run shortWire
      [.enqueue (.response ()) .result, .enqueue publication .control,
        .enqueue (.request ()) .control, .discard (some {true})]
    session.output.channel.sent = [.response ()] ∧
    session.output.queue.queued.map (·.message) = [.request ()] := by
  have hkept := accepted_output_kept shortWire (fun k => if k = 0 then .accepted else .full)
    (fun k => by split_ifs <;> decide)
    [.enqueue (.response ()) .result, .enqueue publication .control,
      .enqueue (.request ()) .control, .discard (some {true})] (by decide)
  exact ⟨hkept.1.trans (by decide +kernel), hkept.2.1.trans (by decide +kernel)⟩

/-- The session after `count` discards: they find nothing and only advance the generation. -/
def discarded (count : Nat) : Session Unit String Bool :=
  ⟨{ queue := { nextDiagnosticPublicationGeneration := count }
     channel := { answers := fun _ => .full } }, []⟩

lemma run_discards (count : Nat) (hcount : count < 2 ^ 64)
    (calls : List (OutboundCall Unit String Bool)) :
    (Session.start fun _ => .full).run shortWire (replicate count (.discard none) ++ calls) =
      (discarded count).run shortWire calls := by
  induction count generalizing calls with
  | zero => rfl
  | succ count ih =>
    have hnext : saturatingAdd count 1 = count + 1 := saturatingAdd_eq (by omega)
    rw [replicate_succ', append_assoc, ih (by omega), ← hnext]
    rfl

/-- After `2 ^ 64 - 1` discards the generation cannot grow any more, and a publication enqueued
then survives every discard. -/
theorem discard_misses_publication :
    let session := (Session.start fun _ => .full).run shortWire
      (replicate (2 ^ 64 - 1) (.discard none) ++ [.enqueue publication .control])
    session.ledger.waiting = [publication] ∧
    names none (diagnosticPublicationUri shortWire publication) = true ∧
    (session.output.queue.discardDiagnosticPublicationsMatching none).1.queued.map (·.message) =
      [publication] := by
  rw [run_discards _ (by omega)]
  decide +kernel

end Lint4d.Lsp
