import Lint4d.Lsp.Outbound

/-!
# The counters of the outbound queue

The nine counters are what the two queues hold, and they keep to their limits:
every move of a message keeps both.
-/

namespace Lint4d.Lsp

open List

variable {Body Params Url : Type} {a b limit : Nat}

/-! ## Saturating sums -/

lemma saturatingAdd_le_iff (hlimit : limit < 2 ^ 64 - 1) :
    saturatingAdd a b ≤ limit ↔ a + b ≤ limit := by
  unfold saturatingAdd
  omega

lemma saturatingAdd_eq (h : a + b < 2 ^ 64) : saturatingAdd a b = a + b := by
  unfold saturatingAdd
  omega

namespace OutboundQueue

/-! ## What the counters count -/

/-- The bytes of the messages of a kind. -/
def weight (kind : OutboundClass → Bool)
    (messages : List (PendingOutboundMessage Body Params Url)) : Nat :=
  ((messages.filter fun pending => kind pending.outboundClass).map (·.bytes)).sum

section Weight

variable (kind : OutboundClass → Bool) (pend : PendingOutboundMessage Body Params Url)
  (msgs others : List (PendingOutboundMessage Body Params Url))

@[simp]
lemma weight_nil : weight kind ([] : List (PendingOutboundMessage Body Params Url)) = 0 := rfl

@[simp]
lemma weight_cons : weight kind (pend :: msgs) =
    (if kind pend.outboundClass then pend.bytes else 0) + weight kind msgs := by
  cases h : kind pend.outboundClass <;> simp [weight, h]

@[simp]
lemma weight_append : weight kind (msgs ++ others) = weight kind msgs + weight kind others := by
  simp [weight]

@[simp]
lemma countMessages_nil :
    countMessages kind ([] : List (PendingOutboundMessage Body Params Url)) = 0 := rfl

@[simp]
lemma countMessages_cons : countMessages kind (pend :: msgs) =
    (if kind pend.outboundClass then 1 else 0) + countMessages kind msgs := by
  rw [countMessages, countP_cons, Nat.add_comm]
  rfl

@[simp]
lemma countMessages_append : countMessages kind (msgs ++ others) =
    countMessages kind msgs + countMessages kind others :=
  countP_append

variable (p : PendingOutboundMessage Body Params Url → Bool)

lemma weight_filter_le : weight kind (msgs.filter p) ≤ weight kind msgs := by
  induction msgs with
  | nil => exact Nat.le_refl _
  | cons pend msgs =>
    by_cases h : p pend
    · rw [filter_cons_of_pos h, weight_cons, weight_cons]
      omega
    · rw [filter_cons_of_neg h, weight_cons]
      omega

lemma countMessages_filter_le : countMessages kind (msgs.filter p) ≤ countMessages kind msgs :=
  filter_sublist.countP_le

/-- The saturating count is the exact one as long as that is small. -/
lemma countBytes_eq (h : weight kind msgs < 2 ^ 64) :
    countBytes kind msgs = weight kind msgs := by
  have hfold : ∀ total, total + weight kind msgs < 2 ^ 64 → msgs.foldl (fun total pend =>
        if kind pend.outboundClass then saturatingAdd total pend.bytes else total) total =
      total + weight kind msgs := by
    clear h
    induction msgs with
    | nil => exact fun _ _ => rfl
    | cons pend msgs ih =>
      intro total h
      rw [weight_cons] at h ⊢
      rw [foldl_cons]
      split_ifs at h ⊢ with hkind
      · rw [saturatingAdd_eq (by omega), ih _ (by omega), Nat.add_assoc]
      · rw [ih _ (by omega), Nat.zero_add]
  rw [countBytes, hfold 0 (by omega), Nat.zero_add]

lemma countBytes_filter (hlimit : limit < 2 ^ 64 - 1) (h : weight kind msgs ≤ limit) :
    countBytes kind (msgs.filter p) = weight kind (msgs.filter p) ∧
      countBytes kind (msgs.filter p) ≤ limit := by
  have hle := weight_filter_le kind msgs p
  have heq := countBytes_eq kind (msgs.filter p) (by omega)
  omega

end Weight

/-- All messages that wait, in the order in which the channel is to get them. -/
def queued (queue : OutboundQueue Body Params Url) :
    List (PendingOutboundMessage Body Params Url) :=
  queue.pending ++ queue.deferred

/-- The nine counters are what the queues hold. -/
structure Exact (queue : OutboundQueue Body Params Url) : Prop where
  pendingBytes : queue.pendingBytes = weight (fun _ => true) queue.pending
  pendingDataMessages :
    queue.pendingDataMessages = countMessages (fun c => !c.isControl) queue.pending
  pendingControlMessages : queue.pendingControlMessages = countMessages (·.isControl) queue.pending
  pendingControlBytes : queue.pendingControlBytes = weight (·.isControl) queue.pending
  deferredBytes : queue.deferredBytes = weight (fun _ => true) queue.deferred
  deferredControlMessages :
    queue.deferredControlMessages = countMessages (fun c => !c.isResult) queue.deferred
  deferredResultMessages : queue.deferredResultMessages = countMessages (·.isResult) queue.deferred
  deferredControlBytes : queue.deferredControlBytes = weight (fun c => !c.isResult) queue.deferred
  deferredResultBytes : queue.deferredResultBytes = weight (·.isResult) queue.deferred

/-- The nine counters keep to their limits. -/
structure Within (queue : OutboundQueue Body Params Url) : Prop where
  pendingBytes : queue.pendingBytes ≤ maxPendingOutboundBytes
  pendingDataMessages : queue.pendingDataMessages ≤ maxPendingOutboundDataMessages
  pendingControlMessages : queue.pendingControlMessages ≤ maxPendingOutboundControlMessages
  pendingControlBytes : queue.pendingControlBytes ≤ maxPendingOutboundControlBytes
  deferredBytes : queue.deferredBytes ≤ maxDeferredOutboundBytes
  deferredControlMessages : queue.deferredControlMessages ≤ maxDeferredOutboundControlMessages
  deferredResultMessages : queue.deferredResultMessages ≤ maxDeferredOutboundResultMessages
  deferredControlBytes : queue.deferredControlBytes ≤ maxDeferredOutboundControlBytes
  deferredResultBytes : queue.deferredResultBytes ≤ maxDeferredOutboundResultBytes

/-- What holds of the queue between any two calls. -/
structure Sound (queue : OutboundQueue Body Params Url) : Prop where
  exact : queue.Exact
  within : queue.Within
  deferrable : ∀ pending ∈ queue.deferred,
    pending.outboundClass ≠ .data ∧ pending.bytes ≤ maxPendingOutboundControlBytes

lemma isControl_eq : OutboundClass.data.isControl = false ∧
    OutboundClass.control.isControl = true ∧ OutboundClass.result.isControl = true := by
  decide

lemma limits_small : maxPendingOutboundBytes < 2 ^ 64 - 1 ∧
    maxPendingOutboundControlBytes < 2 ^ 64 - 1 ∧ maxDeferredOutboundBytes < 2 ^ 64 - 1 ∧
    maxDeferredOutboundControlBytes < 2 ^ 64 - 1 ∧ maxDeferredOutboundResultBytes < 2 ^ 64 - 1 := by
  decide

/-! ## What one move keeps -/

section Moves

variable {queue : OutboundQueue Body Params Url}
  {pend : PendingOutboundMessage Body Params Url}
  {rest : List (PendingOutboundMessage Body Params Url)}

lemma Sound.popPending (h : queue.Sound) (hpend : queue.pending = pend :: rest) :
    (queue.popPending pend rest).Sound := by
  obtain ⟨⟨h₁, h₂, h₃, h₄, h₅, h₆, h₇, h₈, h₉⟩, ⟨_, _, _, _, _, _, _, _, _⟩, hdefer⟩ := h
  rw [hpend, weight_cons] at h₁ h₄
  rw [hpend, countMessages_cons] at h₂ h₃
  -- a message without control class only counts as data, the others only as control
  cases hclass : pend.outboundClass <;>
    simp only [hclass, isControl_eq, Bool.not_false, Bool.not_true, if_true,
      Bool.false_eq_true, if_false] at h₁ h₂ h₃ h₄ <;>
    (constructor <;> try constructor) <;>
    simp only [OutboundQueue.popPending, hclass] <;> first | assumption | omega

lemma Sound.popDeferred (h : queue.Sound) (hdefer : queue.deferred = pend :: rest) :
    (queue.popDeferred pend rest).Sound := by
  obtain ⟨⟨h₁, h₂, h₃, h₄, h₅, h₆, h₇, h₈, h₉⟩, ⟨_, _, _, _, _, _, _, _, _⟩, hdeferrable⟩ := h
  rw [hdefer, weight_cons] at h₅ h₈ h₉
  rw [hdefer, countMessages_cons] at h₆ h₇
  rw [hdefer] at hdeferrable
  have hrest := (forall_mem_cons.1 hdeferrable).2
  cases hclass : pend.outboundClass.isResult <;>
    simp only [hclass, Bool.not_false, Bool.not_true, if_true,
      Bool.false_eq_true, if_false] at h₅ h₆ h₇ h₈ h₉ <;>
    (constructor <;> try constructor) <;>
    simp only [OutboundQueue.popDeferred, hclass, if_true, Bool.false_eq_true, if_false] <;>
    first | assumption | omega

/-- What the check of the pending queue compares. -/
lemma canFitPending_iff : queue.canFitPending pend = true ↔
    saturatingAdd queue.pendingDataMessages queue.pendingControlMessages <
      maxPendingOutboundMessages ∧
    queue.pendingBytes + pend.bytes ≤ maxPendingOutboundBytes ∧
    (pend.outboundClass = .data → queue.pendingDataMessages < maxPendingOutboundDataMessages) ∧
    (pend.outboundClass ≠ .data → queue.pendingControlMessages < maxPendingOutboundControlMessages ∧
      queue.pendingControlBytes + pend.bytes ≤ maxPendingOutboundControlBytes) := by
  have hbytes := saturatingAdd_le_iff (a := queue.pendingBytes) (b := pend.bytes) limits_small.1
  have hcontrol := saturatingAdd_le_iff (a := queue.pendingControlBytes) (b := pend.bytes)
    limits_small.2.1
  unfold canFitPending
  cases hclass : pend.outboundClass <;> simp [hcontrol, ← hbytes, and_assoc]

lemma Sound.pushPending (h : queue.Sound) (hfits : queue.canFitPending pend = true) :
    (queue.pushPending pend).Sound := by
  obtain ⟨⟨⟩, ⟨⟩, hdefer⟩ := h
  obtain ⟨-, hbytes, hdata, hcontrol⟩ := canFitPending_iff.1 hfits
  have hsmall : maxPendingOutboundControlBytes + maxPendingOutboundBytes < 2 ^ 64 := by decide
  have hsum : saturatingAdd queue.pendingBytes pend.bytes =
      queue.pendingBytes + pend.bytes := saturatingAdd_eq (by omega)
  have hcontrolSum : saturatingAdd queue.pendingControlBytes pend.bytes =
      queue.pendingControlBytes + pend.bytes := saturatingAdd_eq (by omega)
  cases hclass : pend.outboundClass <;>
    simp only [hclass, ne_eq, reduceCtorEq, not_true, not_false_eq_true,
      forall_const] at hdata hcontrol <;>
    (constructor <;> try constructor) <;>
    simp only [OutboundQueue.pushPending, hclass, hsum, hcontrolSum, weight_append, weight_cons,
      weight_nil, countMessages_append, countMessages_cons, countMessages_nil, isControl_eq,
      Bool.not_true, Bool.not_false, if_true, Bool.false_eq_true, if_false] <;>
    first | assumption | omega

/-- What the check of the deferred queue compares. -/
lemma deferredFull_eq_false_iff : queue.deferredFull pend = false ↔
    queue.deferred.length < maxDeferredOutboundMessages ∧
    queue.deferredBytes + pend.bytes ≤ maxDeferredOutboundBytes ∧
    if pend.outboundClass.isResult then
      queue.deferredResultMessages < maxDeferredOutboundResultMessages ∧
      queue.deferredResultBytes + pend.bytes ≤ maxDeferredOutboundResultBytes
    else
      queue.deferredControlMessages < maxDeferredOutboundControlMessages ∧
      queue.deferredControlBytes + pend.bytes ≤ maxDeferredOutboundControlBytes := by
  obtain ⟨-, -, hall, hcontrol, hres⟩ := limits_small
  have hlimit : maxDeferredOutboundControlMessages = maxPendingOutboundControlMessages := rfl
  unfold deferredFull
  cases pend.outboundClass.isResult <;>
    simp only [if_true, Bool.false_eq_true, if_false, Bool.or_eq_false_iff,
      decide_eq_false_iff_not, ge_iff_le, gt_iff_lt, not_le, not_lt, saturatingAdd_le_iff hall,
      saturatingAdd_le_iff hcontrol, saturatingAdd_le_iff hres, hlimit] <;>
    tauto

lemma Sound.defer (h : queue.Sound) (hroom : queue.deferredFull pend = false)
    (hclass : pend.outboundClass ≠ .data) (hbytes : pend.bytes ≤ maxPendingOutboundControlBytes) :
    (queue.defer pend).1.Sound := by
  obtain ⟨⟨⟩, ⟨⟩, hdefer⟩ := h
  have hall : ∀ other ∈ queue.deferred ++ [pend],
      other.outboundClass ≠ .data ∧ other.bytes ≤ maxPendingOutboundControlBytes := by
    exact forall_mem_append.2 ⟨hdefer, forall_mem_singleton.2 ⟨hclass, hbytes⟩⟩
  have hsmall : maxDeferredOutboundResultBytes + maxDeferredOutboundBytes < 2 ^ 64 ∧
      maxDeferredOutboundControlBytes + maxDeferredOutboundBytes < 2 ^ 64 := by decide
  obtain ⟨-, htotal, hkind⟩ := deferredFull_eq_false_iff.1 hroom
  have hsum : saturatingAdd queue.deferredBytes pend.bytes =
      queue.deferredBytes + pend.bytes := saturatingAdd_eq (by omega)
  have hcontrolSum : saturatingAdd queue.deferredControlBytes pend.bytes =
      queue.deferredControlBytes + pend.bytes := saturatingAdd_eq (by omega)
  have hresultSum : saturatingAdd queue.deferredResultBytes pend.bytes =
      queue.deferredResultBytes + pend.bytes := saturatingAdd_eq (by omega)
  cases hres : pend.outboundClass.isResult <;>
    simp only [hres, if_true, Bool.false_eq_true, if_false] at hkind <;>
    (constructor <;> try constructor) <;>
    simp only [OutboundQueue.defer, hroom, hres, hsum, hcontrolSum, hresultSum, weight_append,
      weight_cons, weight_nil, countMessages_append, countMessages_cons, countMessages_nil,
      Bool.not_true, Bool.not_false, if_true, Bool.false_eq_true, if_false] <;>
    first | assumption | omega

lemma Sound.discard [DecidableEq Url] (h : queue.Sound) (uris : Option (Finset Url)) :
    (queue.discardDiagnosticPublicationsMatching uris).1.Sound := by
  obtain ⟨⟨h₁, h₂, h₃, h₄, h₅, h₆, h₇, h₈, h₉⟩, ⟨l₁, l₂, l₃, l₄, l₅, l₆, l₇, l₈, l₉⟩, hdefer⟩ := h
  obtain ⟨s₁, s₂, s₃, s₄, s₅⟩ := limits_small
  have b₁ := fun p => countBytes_filter _ queue.pending p s₁ (h₁ ▸ l₁)
  have b₄ := fun p => countBytes_filter _ queue.pending p s₂ (h₄ ▸ l₄)
  have b₅ := fun p => countBytes_filter _ queue.deferred p s₃ (h₅ ▸ l₅)
  have b₈ := fun p => countBytes_filter _ queue.deferred p s₄ (h₈ ▸ l₈)
  have b₉ := fun p => countBytes_filter _ queue.deferred p s₅ (h₉ ▸ l₉)
  have hle := fun kind p => countMessages_filter_le kind queue.pending p
  have hle' := fun kind p => countMessages_filter_le kind queue.deferred p
  exact ⟨⟨(b₁ _).1, rfl, rfl, (b₄ _).1, (b₅ _).1, rfl, rfl, (b₈ _).1, (b₉ _).1⟩,
    ⟨(b₁ _).2, (hle _ _).trans (h₂ ▸ l₂), (hle _ _).trans (h₃ ▸ l₃), (b₄ _).2, (b₅ _).2,
      (hle' _ _).trans (h₆ ▸ l₆), (hle' _ _).trans (h₇ ▸ l₇), (b₈ _).2, (b₉ _).2⟩,
    fun pend hpend => hdefer pend (mem_filter.1 hpend).1⟩

/-- The generations are not counted. -/
lemma Sound.restamp (h : queue.Sound) (generation : Nat) :
    { queue with nextDiagnosticPublicationGeneration := generation }.Sound :=
  { h with exact := { h.exact with }, within := { h.within with } }

end Moves

end OutboundQueue

end Lint4d.Lsp
