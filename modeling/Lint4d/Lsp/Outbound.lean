import Lint4d.Lib.Ledger

/-!
# The queue in front of the transport

The protocol loop never blocks on the client.  What the transport channel does
not take at once is kept in two queues: `pending` is what the channel is
offered next, `deferred` holds control and result messages that found no room
there.  Messages, bytes and classes are counted by hand in nine counters, and
publications of diagnostics carry a generation, so that outdated ones can be
taken back while they still wait.
-/

namespace Lint4d.Lsp

/-! ## Limits -/

def maxGeneralAnalysisJobs : Nat := 2

def maxAnalysisJobs : Nat := maxGeneralAnalysisJobs + 1

def maxAnalysisQueue : Nat := 32

def maxClientAnalysisQueue : Nat := maxAnalysisQueue - 1

def maxClientAnalysisRecipients : Nat := maxAnalysisJobs + maxClientAnalysisQueue

def maxProgressEntries : Nat := 128

def maxClientControlMessagesPerRecipient : Nat := 4

def maxPendingOutboundControlMessages : Nat :=
  maxClientAnalysisRecipients * maxClientControlMessagesPerRecipient + maxProgressEntries

def maxPendingOutboundDataMessages : Nat := 16

def maxPendingOutboundMessages : Nat :=
  maxPendingOutboundControlMessages + maxPendingOutboundDataMessages

def maxPendingOutboundBytes : Nat := 16 * 1024 * 1024

def maxPendingOutboundControlBytes : Nat := 8 * 1024 * 1024

def maxPartialDeliveryBytes : Nat := 64 * 1024 * 1024

def maxDeferredOutboundResultBytes : Nat := maxPartialDeliveryBytes

def maxDeferredOutboundControlBytes : Nat := maxPendingOutboundControlBytes

def maxDeferredOutboundBytes : Nat :=
  maxDeferredOutboundResultBytes + maxDeferredOutboundControlBytes

def maxDeferredOutboundResultMessages : Nat := maxPendingOutboundControlMessages

def maxDeferredOutboundControlMessages : Nat := maxPendingOutboundControlMessages

def maxDeferredOutboundMessages : Nat :=
  maxDeferredOutboundResultMessages + maxDeferredOutboundControlMessages

/-! ## Messages -/

/-- `saturating_add` of `usize` and `u64`. -/
def saturatingAdd (a b : Nat) : Nat := min (a + b) (2 ^ 64 - 1)

inductive Message (Body Params : Type) where
  | request (body : Body)
  | response (body : Body)
  | notification (method : String) (params : Params)
  deriving DecidableEq

/-- What the queue takes from `serde_json` and `url`. -/
structure Wire (Body Params Url : Type) where
  /-- The number of bytes of a message as JSON. -/
  encodedLength : Message Body Params → Except String Nat
  /-- The string in the field `uri` of the parameters. -/
  uriField : Params → Option String
  parseUrl : String → Option Url

inductive OutputError where
  | disconnected
  | backpressure
  | resultBackpressure
  | messageTooLarge
  | encoding (error : String)
  deriving Repr, DecidableEq

/-- Results and controls share an allowance; data has its own. -/
inductive OutboundClass where
  | data
  | control
  | result
  deriving Repr, DecidableEq

def OutboundClass.isControl : OutboundClass → Bool
  | .control | .result => true
  | .data => false

def OutboundClass.isResult : OutboundClass → Bool
  | .result => true
  | _ => false

structure PendingOutboundMessage (Body Params Url : Type) where
  message : Message Body Params
  bytes : Nat
  outboundClass : OutboundClass
  diagnosticUri : Option Url
  diagnosticGeneration : Option Nat

structure DiagnosticPublicationDiscardScan where
  scannedMessages : Nat := 0
  scannedBytes : Nat := 0
  removedMessages : Nat := 0
  deriving Repr, DecidableEq

/-- The messages pending for the channel, and those deferred behind them. -/
structure OutboundQueue (Body Params Url : Type) where
  pending : List (PendingOutboundMessage Body Params Url) := []
  pendingBytes : Nat := 0
  pendingDataMessages : Nat := 0
  pendingControlMessages : Nat := 0
  pendingControlBytes : Nat := 0
  deferred : List (PendingOutboundMessage Body Params Url) := []
  deferredBytes : Nat := 0
  deferredControlMessages : Nat := 0
  deferredResultMessages : Nat := 0
  deferredControlBytes : Nat := 0
  deferredResultBytes : Nat := 0
  nextDiagnosticPublicationGeneration : Nat := 0

/-! ## The channel -/

inductive TrySend where
  | accepted
  | full
  | disconnected
  deriving Repr, DecidableEq

/-- The sending end of the transport channel: what it will answer to each attempt, how many
attempts there were, and what it has taken. -/
structure Channel (Body Params : Type) where
  answers : Nat → TrySend
  asked : Nat := 0
  sent : List (Message Body Params) := []

variable {Body Params Url : Type}

def Channel.trySend (channel : Channel Body Params) (message : Message Body Params) :
    TrySend × Channel Body Params :=
  match channel.answers channel.asked with
  | .accepted =>
    (.accepted, { channel with asked := channel.asked + 1, sent := channel.sent ++ [message] })
  | answer => (answer, { channel with asked := channel.asked + 1 })

/-- The queue together with the channel it writes to. -/
structure Output (Body Params Url : Type) where
  queue : OutboundQueue Body Params Url
  channel : Channel Body Params

def diagnosticPublicationUri (wire : Wire Body Params Url) : Message Body Params → Option Url
  | .notification method params =>
    if method ≠ "textDocument/publishDiagnostics" then none
    else (wire.uriField params).bind wire.parseUrl
  | _ => none

namespace OutboundQueue

/-! ## Discarding publications -/

section Discard

variable [DecidableEq Url]

/-- A publication for one of the documents, or for any without a list of documents, of an older
generation. -/
def superseded (uris : Option (Finset Url)) (staleBefore : Nat)
    (pending : PendingOutboundMessage Body Params Url) : Bool :=
  pending.diagnosticUri.any fun uri =>
    (match uris with
      | some uris => uri ∈ uris
      | none => true) &&
    pending.diagnosticGeneration.any fun generation => generation < staleBefore

/-- What one call of `retain` adds to the report. -/
def scanMessage (removes : PendingOutboundMessage Body Params Url → Bool)
    (scan : DiagnosticPublicationDiscardScan) (pending : PendingOutboundMessage Body Params Url) :
    DiagnosticPublicationDiscardScan where
  scannedMessages := saturatingAdd scan.scannedMessages 1
  scannedBytes := saturatingAdd scan.scannedBytes pending.bytes
  removedMessages :=
    if removes pending then saturatingAdd scan.removedMessages 1 else scan.removedMessages

/-- The bytes of the messages of a kind, counted one after the other. -/
def countBytes (kind : OutboundClass → Bool)
    (messages : List (PendingOutboundMessage Body Params Url)) : Nat :=
  messages.foldl
    (fun total pending =>
      if kind pending.outboundClass then saturatingAdd total pending.bytes else total) 0

def countMessages (kind : OutboundClass → Bool)
    (messages : List (PendingOutboundMessage Body Params Url)) : Nat :=
  messages.countP fun pending => kind pending.outboundClass

/-- Drops the queued diagnostics of the given documents, or all of them. -/
def discardDiagnosticPublicationsMatching (uris : Option (Finset Url))
    (queue : OutboundQueue Body Params Url) :
    OutboundQueue Body Params Url × DiagnosticPublicationDiscardScan :=
  let removes := superseded uris queue.nextDiagnosticPublicationGeneration
  let pending := queue.pending.filter fun message => !removes message
  let deferred := queue.deferred.filter fun message => !removes message
  ({ pending := pending
     pendingBytes := countBytes (fun _ => true) pending
     pendingDataMessages := countMessages (fun c => !c.isControl) pending
     pendingControlMessages := countMessages (·.isControl) pending
     pendingControlBytes := countBytes (·.isControl) pending
     deferred := deferred
     deferredBytes := countBytes (fun _ => true) deferred
     deferredControlMessages := countMessages (fun c => !c.isResult) deferred
     deferredResultMessages := countMessages (·.isResult) deferred
     deferredControlBytes := countBytes (fun c => !c.isResult) deferred
     deferredResultBytes := countBytes (·.isResult) deferred
     nextDiagnosticPublicationGeneration :=
       saturatingAdd queue.nextDiagnosticPublicationGeneration 1 },
   queue.deferred.foldl (scanMessage removes) (queue.pending.foldl (scanMessage removes) {}))

end Discard

/-! ## Moving messages -/

/-- The first pending message leaves. -/
def popPending (pending : PendingOutboundMessage Body Params Url)
    (rest : List (PendingOutboundMessage Body Params Url))
    (queue : OutboundQueue Body Params Url) : OutboundQueue Body Params Url :=
  let queue := { queue with pending := rest, pendingBytes := queue.pendingBytes - pending.bytes }
  match pending.outboundClass with
  | .data => { queue with pendingDataMessages := queue.pendingDataMessages - 1 }
  | .control | .result =>
    { queue with
      pendingControlMessages := queue.pendingControlMessages - 1
      pendingControlBytes := queue.pendingControlBytes - pending.bytes }

/-- The first deferred message leaves. -/
def popDeferred (deferred : PendingOutboundMessage Body Params Url)
    (rest : List (PendingOutboundMessage Body Params Url))
    (queue : OutboundQueue Body Params Url) : OutboundQueue Body Params Url :=
  let queue := { queue with
    deferred := rest
    deferredBytes := queue.deferredBytes - deferred.bytes }
  if deferred.outboundClass.isResult then
    { queue with
      deferredResultMessages := queue.deferredResultMessages - 1
      deferredResultBytes := queue.deferredResultBytes - deferred.bytes }
  else
    { queue with
      deferredControlMessages := queue.deferredControlMessages - 1
      deferredControlBytes := queue.deferredControlBytes - deferred.bytes }

/-- The limits on messages and bytes, over all and for the class. -/
def canFitPending (queue : OutboundQueue Body Params Url)
    (pending : PendingOutboundMessage Body Params Url) : Bool :=
  let totalMessages := saturatingAdd queue.pendingDataMessages queue.pendingControlMessages
  if totalMessages ≥ maxPendingOutboundMessages ∨
      saturatingAdd queue.pendingBytes pending.bytes > maxPendingOutboundBytes then false
  else
    match pending.outboundClass with
    | .data => queue.pendingDataMessages < maxPendingOutboundDataMessages
    | .control | .result =>
      queue.pendingControlMessages < maxPendingOutboundControlMessages &&
        saturatingAdd queue.pendingControlBytes pending.bytes ≤ maxPendingOutboundControlBytes

def pushPending (pending : PendingOutboundMessage Body Params Url)
    (queue : OutboundQueue Body Params Url) : OutboundQueue Body Params Url :=
  let pushed := { queue with
    pending := queue.pending ++ [pending]
    pendingBytes := saturatingAdd queue.pendingBytes pending.bytes }
  match pending.outboundClass with
  | .data => { pushed with pendingDataMessages := queue.pendingDataMessages + 1 }
  | .control | .result =>
    { pushed with
      pendingControlMessages := queue.pendingControlMessages + 1
      pendingControlBytes := saturatingAdd queue.pendingControlBytes pending.bytes }

/-- No room for one more deferred message, given the counters and limits of its class. -/
def deferredFull (queue : OutboundQueue Body Params Url)
    (pending : PendingOutboundMessage Body Params Url) : Bool :=
  let (messages, maxMessages, bytes, maxBytes) :=
    if pending.outboundClass.isResult then
      (queue.deferredResultMessages, maxDeferredOutboundResultMessages,
        queue.deferredResultBytes, maxDeferredOutboundResultBytes)
    else
      (queue.deferredControlMessages, maxPendingOutboundControlMessages,
        queue.deferredControlBytes, maxDeferredOutboundControlBytes)
  messages ≥ maxMessages || saturatingAdd bytes pending.bytes > maxBytes ||
    queue.deferred.length ≥ maxDeferredOutboundMessages ||
    saturatingAdd queue.deferredBytes pending.bytes > maxDeferredOutboundBytes

def defer (pending : PendingOutboundMessage Body Params Url)
    (queue : OutboundQueue Body Params Url) :
    OutboundQueue Body Params Url × Except OutputError Bool :=
  if queue.deferredFull pending then
    (queue, .error (if pending.outboundClass.isResult then .resultBackpressure else .backpressure))
  else
    let pushed := { queue with
      deferred := queue.deferred ++ [pending]
      deferredBytes := saturatingAdd queue.deferredBytes pending.bytes }
    (if pending.outboundClass.isResult then
      { pushed with
        deferredResultMessages := queue.deferredResultMessages + 1
        deferredResultBytes := saturatingAdd queue.deferredResultBytes pending.bytes }
    else
      { pushed with
        deferredControlMessages := queue.deferredControlMessages + 1
        deferredControlBytes := saturatingAdd queue.deferredControlBytes pending.bytes },
     .ok true)

end OutboundQueue

namespace Output

/-! ## The calls -/

/-- Offer the pending messages until the channel takes no more; an answer ends the flush. -/
def sendPending (output : Output Body Params Url) :
    List (PendingOutboundMessage Body Params Url) →
      Output Body Params Url × Option (Except OutputError Unit)
  | [] => (output, none)
  | pending :: rest =>
    match output.channel.trySend pending.message with
    | (.accepted, channel) => sendPending ⟨output.queue.popPending pending rest, channel⟩ rest
    | (.full, channel) => (⟨output.queue, channel⟩, some (.ok ()))
    | (.disconnected, channel) => (⟨output.queue, channel⟩, some (.error .disconnected))

/-- The loop of `flush`, which moves one deferred message each time round. -/
def flushFrom : List (PendingOutboundMessage Body Params Url) → Output Body Params Url →
    Output Body Params Url × Except OutputError Unit
  | [], output =>
    match output.sendPending output.queue.pending with
    | (output, some answer) => (output, answer)
    | (output, none) => (output, .ok ())
  | deferred :: rest, output =>
    match output.sendPending output.queue.pending with
    | (output, some answer) => (output, answer)
    | (output, none) =>
      if output.queue.canFitPending deferred then
        flushFrom rest
          { output with queue := (output.queue.popDeferred deferred rest).pushPending deferred }
      else (output, .ok ())

/-- Sends what is pending, and moves deferred messages up as room appears. -/
def flush (output : Output Body Params Url) :
    Output Body Params Url × Except OutputError Unit :=
  flushFrom output.queue.deferred output

/-- A message that finds no room among the pending ones. -/
def overflow (output : Output Body Params Url)
    (pending : PendingOutboundMessage Body Params Url) :
    Output Body Params Url × Except OutputError Bool :=
  match pending.outboundClass with
  | .data => (output, .ok false)
  | .control | .result =>
    let (queue, answer) := output.queue.defer pending
    ({ output with queue }, answer)

/-- The message as it is queued; a publication takes the next generation. -/
def stamp (wire : Wire Body Params Url) (message : Message Body Params) (bytes : Nat)
    (outboundClass : OutboundClass) (queue : OutboundQueue Body Params Url) :
    PendingOutboundMessage Body Params Url × OutboundQueue Body Params Url :=
  let diagnosticUri := diagnosticPublicationUri wire message
  let pending := ⟨message, bytes, outboundClass, diagnosticUri, none⟩
  if diagnosticUri.isSome then
    ({ pending with diagnosticGeneration := some queue.nextDiagnosticPublicationGeneration },
     { queue with
       nextDiagnosticPublicationGeneration :=
         saturatingAdd queue.nextDiagnosticPublicationGeneration 1 })
  else (pending, queue)

/-- Sends or keeps a message after a flush; data that finds no room is refused. -/
def enqueue (wire : Wire Body Params Url) (message : Message Body Params)
    (outboundClass : OutboundClass) (output : Output Body Params Url) :
    Output Body Params Url × Except OutputError Bool :=
  match output.flush with
  | (output, .error error) => (output, .error error)
  | (output, .ok ()) =>
    match wire.encodedLength message with
    | .error error => (output, .error (.encoding error))
    | .ok bytes =>
      if bytes > maxPendingOutboundBytes ∨
          (outboundClass.isControl ∧ bytes > maxPendingOutboundControlBytes) then
        (output, .error .messageTooLarge)
      else
        let (pending, queue) := stamp wire message bytes outboundClass output.queue
        let output := { output with queue }
        if output.queue.deferred ≠ [] then output.overflow pending
        else if ¬ output.queue.canFitPending pending then output.overflow pending
        else
          match flush { output with queue := output.queue.pushPending pending } with
          | (output, .error error) => (output, .error error)
          | (output, .ok ()) => (output, .ok true)

end Output

end Lint4d.Lsp
