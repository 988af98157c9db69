import Lint4d.Facts.Bounds
import Lint4d.Facts.SizePlan

/-!
# Facts survive the row format

Well-formed facts that the encoder admits decode to themselves, for every way
of cutting the encoded rows into batches.

## Layout

- the readers invert the encoders of the row parts
- one row: a decoder that is handed an encoded fact retains that fact
- one kind of rows, by induction over the facts; posting lists are rejoined
  from their chunks
- the supplemental header and the cross-row checks
-/

namespace Lint4d.Facts

open Lint4d.Lib Lint4d.Cache Parser FactSizes Plan
open List hiding lt_asymm lt_irrefl

variable {rest : Bytes} {facts : ArtifactFacts}

/-! ## Row parts -/

variable {α : Type}

namespace ByteReader

/-- The reader reads back what the encoder wrote, whatever follows. -/
def Inverts (read : ByteReader α) (enc : α → Bytes) : Prop :=
  ∀ v rest, read.run (enc v ++ rest) = .ok (v, rest)

variable {read : ByteReader α} {enc : α → Bytes}

lemma Inverts.bind_run {β : Type} (h : Inverts read enc) (v : α) (k : α → ByteReader β)
    (rest : Bytes) : (read >>= k).run (enc v ++ rest) = (k v).run rest :=
  bind_run_of_ok (h v rest) k

lemma inverts_of_exact (h : Exact Always enc read) : Inverts read enc := fun _ => h.complete trivial

lemma u8_inverts : Inverts u8 Encoder.u8 := inverts_of_exact (exact_byte _)

lemma u32_exact : Exact Always Encoder.u32 u32 := exact_word32 _

lemma u32_inverts : Inverts u32 Encoder.u32 := inverts_of_exact u32_exact

lemma length_inverts : Inverts length Encoder.u64 := inverts_of_exact (exact_word64 _)

lemma bool_inverts : Inverts bool Encoder.bool := inverts_of_exact (exact_flag _ _)

lemma str_inverts : Inverts str Encoder.str := by
  intro v rest
  have hcounted := (exact_counted truncated).complete
    (v := ⟨v.bytes.toList, v.bytes.bounded⟩) trivial rest
  exact (bind_run_of_ok hcounted _).trans (congrFun (dif_pos v.utf8) rest)

lemma range_inverts : Inverts range encodeRange := by
  intro v rest
  rw [range, encodeRange, append_assoc, u32_inverts.bind_run, u32_inverts.bind_run,
    dif_pos v.ordered]
  rfl

lemma location_inverts : Inverts location encodeLocation := by
  intro v rest
  cases v with
  | source slot range =>
    refine (u8_inverts.bind_run 1 _ (Encoder.u32 slot ++ encodeRange range ++ rest)).trans ?_
    rw [append_assoc]
    exact (u32_inverts.bind_run slot _ _).trans (range_inverts.bind_run range _ rest)
  | expanded range => exact (u8_inverts.bind_run 2 _ _).trans (range_inverts.bind_run range _ rest)

/-- The tags of a table are read as the variants they were written for. -/
abbrev TagTable (variants : List α) (tag : α → UInt8) : Prop :=
  Inverts (tagged variants tag) fun a => Encoder.u8 (tag a)

/-- A table that lists every variant, with distinct tags, decodes every tag it
encodes. -/
lemma tagged_inverts {variants : List α} {tag : α → UInt8}
    (hall : ∀ a, variants.find? (fun variant => tag variant == tag a) = some a := by
      intro a; cases a <;> rfl) :
    TagTable variants tag := by
  intro v rest
  rw [tagged, u8_inverts.bind_run, hall v]
  rfl

lemma option_inverts (h : Inverts read enc) :
    Inverts (option read) fun v => Encoder.option v enc := by
  intro v rest
  cases v with
  | none => exact u8_inverts.bind_run 0 _ rest
  | some value =>
    refine (u8_inverts.bind_run 1 _ (enc value ++ rest)).trans ?_
    exact h.bind_run value _ rest

lemma certainty_inverts : Inverts certainty encodeCertainty := by
  have hactv : TagTable activities Activity.tag := tagged_inverts
  intro v rest
  rw [certainty, encodeCertainty, append_assoc, hactv.bind_run, bool_inverts.bind_run]
  rfl

end ByteReader

/-! ## One row -/

variable {bytes : Nat} {read : List PostingOccurrence}

namespace FactDecoder

open ByteReader

variable {sizes : FactSizes} {dec : FactDecoder} {before : List PostingFact}

/-- The decoder after charging `bytes`. -/
def spend (decoder : FactDecoder) (bytes : Nat) : FactDecoder :=
  { decoder with budget := { decoder.budget with used := decoder.budget.used + bytes } }

/-- `bytes` more can be charged. -/
def Affords (decoder : FactDecoder) (bytes : Nat) : Prop :=
  decoder.budget.used + bytes ≤ decoder.budget.limit

lemma charge_bind_run (h : dec.Affords bytes) (k : FactDecoder → ByteReader α) (input : Bytes) :
    (dec.charge bytes >>= k).run input = (k (dec.spend bytes)).run input := by
  have hcharge : dec.charge bytes = pure (dec.spend bytes) := by
    unfold Affords at h
    unfold charge FactBudget.charge
    rw [if_pos h]
    rfl
  rw [hcharge, pure_bind]

lemma declaration_run {fact : DeclarationFact} (hid : fact.id.toNat = dec.facts.declarations.length)
    (hafford : dec.Affords (sizes.declarationCost fact)) :
    (dec.declaration sizes fact.name).run (encodeDeclaration fact).payload =
      .ok ({ dec.spend (sizes.declarationCost fact) with
        facts := { dec.facts with declarations := dec.facts.declarations ++ [fact] } },
        []) := by
  have hkind : TagTable kinds DeclarationKind.tag := tagged_inverts
  have hvisibility : TagTable visibilities Visibility.tag := tagged_inverts
  have hregion : TagTable regions Region.tag := tagged_inverts
  have horigin : TagTable origins Origin.tag := tagged_inverts
  have hshape : TagTable shapes DeclarationShape.tag := tagged_inverts
  rw [← append_nil (encodeDeclaration fact).payload]
  simp only [encodeDeclaration, append_assoc, declaration]
  rw [u32_inverts.bind_run, if_neg (not_not.mpr hid), str_inverts.bind_run,
    hkind.bind_run, hvisibility.bind_run, hregion.bind_run,
    horigin.bind_run, bool_inverts.bind_run,
    (option_inverts u32_inverts).bind_run, location_inverts.bind_run,
    certainty_inverts.bind_run, location_inverts.bind_run,
    hshape.bind_run, bool_inverts.bind_run,
    (option_inverts str_inverts).bind_run]
  unfold declarationCost at hafford
  rw [charge_bind_run hafford, pure_ok]
  refine ⟨?_, rfl⟩
  simp only [spend, ← hid, UInt32.ofNat_toNat]
  rfl

lemma import_run {fact : ImportFact} (hid : fact.id.toNat = dec.facts.imports.length)
    (hafford : dec.Affords (sizes.importCost fact)) :
    (dec.import sizes fact.name).run (encodeImport fact).payload =
      .ok ({ dec.spend (sizes.importCost fact) with
        facts := { dec.facts with imports := dec.facts.imports ++ [fact] } }, []) := by
  have hsection : TagTable sections ImportSection.tag := tagged_inverts
  rw [← append_nil (encodeImport fact).payload]
  simp only [encodeImport, append_assoc, «import»]
  rw [u32_inverts.bind_run, if_neg (not_not.mpr hid), str_inverts.bind_run,
    hsection.bind_run, location_inverts.bind_run, certainty_inverts.bind_run]
  unfold importCost at hafford
  rw [charge_bind_run hafford, pure_ok]
  refine ⟨?_, rfl⟩
  simp only [spend, ← hid, UInt32.ofNat_toNat]
  rfl

lemma include_run {fact : IncludeFact} (hslot : fact.slot.toNat = dec.facts.includes.length + 1)
    (hpar : fact.parent < fact.slot) (hafford : dec.Affords sizes.include) :
    (dec.include sizes).run (encodeInclude fact).payload = .ok ({ dec.spend sizes.include with
        facts := { dec.facts with includes := dec.facts.includes ++ [fact] } }, []) := by
  have hexpansion : TagTable expansions IncludeExpansion.tag := tagged_inverts
  have hguard : ¬ (decide (fact.slot.toNat ≠ dec.facts.includes.length + 1) ||
      decide (fact.slot ≤ fact.parent)) = true := by
    simp [hslot, hpar]
  rw [← append_nil (encodeInclude fact).payload]
  simp only [encodeInclude, append_assoc, «include»]
  rw [u32_inverts.bind_run, u32_inverts.bind_run, range_inverts.bind_run,
    hexpansion.bind_run, if_neg hguard, charge_bind_run hafford, pure_ok]
  exact ⟨rfl, rfl⟩

lemma target_inverts : Inverts target encodeTarget := by
  intro v rest
  cases v with
  | source slot start =>
    refine (u8_inverts.bind_run 1 _ (Encoder.u32 slot ++ Encoder.u32 start ++ rest)).trans ?_
    rw [append_assoc]
    exact (u32_inverts.bind_run slot _ _).trans (u32_inverts.bind_run start _ rest)
  | synthetic => exact u8_inverts.bind_run 2 _ rest

lemma segment_run {fact : SegmentFact}
    (hstart : fact.expanded.start = segmentsEnd 0 dec.facts.segments)
    (hne : fact.expanded.isEmpty = false) (hafford : dec.Affords sizes.segment) :
    (dec.segment sizes).run (encodeSegment fact).payload = .ok ({ dec.spend sizes.segment with
        facts := { dec.facts with segments := dec.facts.segments ++ [fact] } }, []) := by
  have hguard : ¬ (decide (fact.expanded.start ≠ segmentsEnd 0 dec.facts.segments) ||
      fact.expanded.isEmpty) = true := by
    simp [hstart, hne]
  rw [← append_nil (encodeSegment fact).payload]
  simp only [encodeSegment, append_assoc, segment]
  rw [range_inverts.bind_run, target_inverts.bind_run, if_neg hguard,
    charge_bind_run hafford, pure_ok]
  exact ⟨rfl, rfl⟩

/-! ## Posting rows -/

variable {name : Str}

lemma occurrence_read {occ : PostingOccurrence} {count : Nat}
    (hlen : occ.range.len.toNat = Str.len name)
    (horder : read.getLast?.any (fun prev => outOfOrder prev occ) = false) :
    (occurrences name (count + 1) read).run (encodeOccurrence occ ++ rest) =
      (occurrences name count (read ++ [occ])).run rest := by
  have hactv : TagTable postingActivities PostingActivity.tag := tagged_inverts
  simp only [encodeOccurrence, append_assoc, occurrences]
  rw [u32_inverts.bind_run, range_inverts.bind_run, hactv.bind_run,
    if_neg (not_not.mpr hlen), if_neg (by rw [horder]; exact Bool.false_ne_true)]

variable {read chunk : List PostingOccurrence}

lemma getLast?_any_eq_false {R : α → α → Prop} {front back : List α} {a : α} {p : α → Bool}
    (h : (front ++ a :: back).IsChain R) (hp : ∀ prev, R prev a → p prev = false) :
    front.getLast?.any p = false := by
  cases hlast : front.getLast? with
  | none => rfl
  | some prev => exact hp prev ((isChain_append.mp h).2.2 prev hlast a rfl)

/-- A chunk of occurrences is appended to the ones already read. -/
lemma occurrences_run
    (horder : (read ++ chunk).IsChain fun prev next => outOfOrder prev next = false)
    (hlen : ∀ occ ∈ chunk, occ.range.len.toNat = Str.len name) :
    (occurrences name chunk.length read).run (chunk.flatMap encodeOccurrence ++ rest) =
      .ok (read ++ chunk, rest) := by
  induction chunk generalizing read with
  | nil =>
    rw [append_nil]
    exact pure_ok.mpr ⟨rfl, rfl⟩
  | cons occ chunk ih =>
    rw [length_cons, flatMap_cons, append_assoc,
      occurrence_read (hlen occ (by simp)) (getLast?_any_eq_false horder fun _ => id)]
    have happend : read ++ [occ] ++ chunk = read ++ occ :: chunk := by simp
    rw [ih (by rw [happend]; exact horder) (forall_mem_cons.mp hlen).2, happend]

lemma remaining_bind_run {k : Nat → ByteReader α} {input : Bytes} :
    (remaining >>= k).run input = (k input.length).run input := rfl

/-- A posting row that extends what `openPosting` gives it. -/
lemma posting_run {chunk : List PostingOccurrence} {opened : FactDecoder} (hne : chunk ≠ [])
    (hsmall : chunk.length < 2 ^ 64) (hafford : dec.Affords (chunk.length * sizes.occurrence))
    (hopen : ∀ input,
      ((dec.spend (chunk.length * sizes.occurrence)).openPosting sizes name).run input =
        .ok ((opened, before, read), input))
    (horder : (read ++ chunk).IsChain fun prev next => outOfOrder prev next = false)
    (hlen : ∀ occ ∈ chunk, occ.range.len.toNat = Str.len name) :
    (dec.posting sizes name).run (encodeChunk name chunk).payload = .ok ({ opened with
        facts := { opened.facts with
          postings := before ++ [{ name, occurrences := read ++ chunk }] }
        postingRows := opened.postingRows + 1 }, []) := by
  have hcount : (UInt64.ofNat chunk.length).toNat = chunk.length := UInt64.toNat_ofNat_of_lt' hsmall
  have hpos : chunk.length ≠ 0 := by simpa using hne
  have hbytes : (chunk.flatMap encodeOccurrence).length = occurrenceBytes * chunk.length := by
    simp [length_flatMap, encodeOccurrence, length_encodeRange, occurrenceBytes, Nat.mul_comm]
  simp only [encodeChunk, Encoder.seq, Encoder.length, posting]
  rw [length_inverts.bind_run, hcount]
  rw [remaining_bind_run, if_neg (by
    rw [hbytes, Nat.mul_div_cancel_left _ (by decide)]
    simp [hpos])]
  have hread : (occurrences name chunk.length read).run (chunk.flatMap encodeOccurrence ++ []) =
      .ok (read ++ chunk, []) := occurrences_run horder hlen
  rw [append_nil] at hread
  rw [charge_bind_run hafford, bind_run_of_ok (hopen _), bind_run_of_ok hread]
  rfl

/-! ## Rows of one kind -/

/-- The decoder holds `facts`, has charged for them on top of `budget`, has seen
`rows` posting rows and no row after `kind`. -/
structure At (sizes : FactSizes) (budget : FactBudget) (facts : ArtifactFacts) (rows : Nat)
    (kind : UInt8) (decoder : FactDecoder) : Prop where
  facts_eq : decoder.facts = facts
  budget_eq : decoder.budget = { budget with used := budget.used + sizes.retainedBytes facts }
  rows_eq : decoder.postingRows = rows
  kind_le : decoder.lastKind ≤ kind

/-- The decoder accepts the rows `more` and is then at `facts`. -/
def Reads (sizes : FactSizes) (budget : FactBudget) (decoder : FactDecoder) (more : List Row)
    (facts : ArtifactFacts) (rows : Nat) (kind : UInt8) : Prop :=
  ∃ next, decoder.push sizes more = .ok next ∧ At sizes budget facts rows kind next

variable {budget : FactBudget} {facts : ArtifactFacts} {rows : Nat} {kind : UInt8}

/-- Retaining up to `more` is affordable when what it would cost in all is. -/
lemma At.affords (h : At sizes budget facts rows kind dec)
    (hlimit : budget.used + sizes.retainedBytes facts + bytes ≤ budget.limit) :
    dec.Affords bytes := by
  rw [Affords, h.budget_eq]
  exact hlimit

lemma indexName_some (h : name.bytes.toList ≠ []) : indexName (some name.bytes) = .ok name := by
  simp [indexName, h, name.utf8]

/-- A row that costs `cost` and turns the facts into `facts'` keeps the books. -/
lemma At.row (h : At sizes budget facts rows kind dec) (cost more : Nat) {row : Row}
    (hkind : kind ≤ row.rowKind) {facts' : ArtifactFacts}
    (hcost : sizes.retainedBytes facts' = sizes.retainedBytes facts + cost)
    (hlimit : budget.used + sizes.retainedBytes facts' ≤ budget.limit)
    (hrow : ∀ seen : FactDecoder, seen.facts = facts → seen.Affords cost →
      rowOfKind sizes seen row = .ok { seen.spend cost with
        facts := facts', postingRows := seen.postingRows + more }) :
    ∃ decoder', dec.pushRow sizes row = .ok decoder' ∧
      At sizes budget facts' (rows + more) row.rowKind decoder' := by
  have hafford : ({ dec with lastKind := row.rowKind } : FactDecoder).Affords cost :=
    h.affords (by omega)
  refine ⟨{ dec.spend cost with
    facts := facts', postingRows := dec.postingRows + more, lastKind := row.rowKind }, ?_, ?_⟩
  · rw [pushRow, if_neg (UInt8.not_lt.mpr (UInt8.le_trans h.kind_le hkind))]
    exact hrow _ h.facts_eq hafford
  · refine ⟨rfl, ?_, by rw [← h.rows_eq], UInt8.le_refl _⟩
    rw [hcost]
    simp only [spend, h.budget_eq]
    rw [Nat.add_assoc]

/-! ## Posting lists -/

/-- `facts` with the occurrences of `name` read so far as its last posting list. -/
def extended (facts : ArtifactFacts) (name : Str) (read : List PostingOccurrence) :
    ArtifactFacts :=
  if read = [] then facts
  else { facts with postings := facts.postings ++ [{ name, occurrences := read }] }

lemma extended_of_ne_nil (h : read ≠ []) :
    extended facts name read =
      { facts with postings := facts.postings ++ [{ name, occurrences := read }] } :=
  if_neg h

lemma postingName_some (h : isNormalizedRun name.bytes.toList = true) :
    postingName (some name.bytes) = .ok name := by
  have hne : name.bytes.toList ≠ [] := by
    intro hnil
    rw [hnil] at h
    cases h
  refine bind_ok_iff.mpr ⟨name, indexName_some hne, ?_⟩
  rw [if_pos h]
  rfl

lemma openPosting_continue
    (h : dec.facts.postings = before ++ [{ name, occurrences := read }]) (input : Bytes) :
    (dec.openPosting sizes name).run input = .ok ((dec, before, read), input) := by
  rw [openPosting, h, getLast?_concat]
  simp only [if_true, dropLast_concat]
  rfl

lemma openPosting_new
    (h : ∀ last ∈ dec.facts.postings.getLast?, last.name.bytes.toList < name.bytes.toList)
    (hafford : dec.Affords (sizes.posting + Str.len name)) (input : Bytes) :
    (dec.openPosting sizes name).run input =
      .ok ((dec.spend (sizes.posting + Str.len name), dec.facts.postings, []), input) := by
  rw [openPosting]
  split
  · rename_i last hlast
    have hlt := h last hlast
    rw [if_neg (by rintro rfl; exact List.lt_irrefl _ hlt), if_neg (List.lt_asymm hlt),
      charge_bind_run hafford]
    rfl
  · rw [charge_bind_run hafford]
    rfl

/-- The retained bytes of a posting list grow by its occurrences, and by the list
itself with its first chunk. -/
lemma retainedBytes_extended (hne : chunk ≠ []) :
    sizes.retainedBytes (extended facts name (read ++ chunk)) =
      sizes.retainedBytes (extended facts name read) + (chunk.length * sizes.occurrence +
        if read = [] then sizes.posting + Str.len name else 0) := by
  rw [extended_of_ne_nil (by simp [hne])]
  by_cases hread : read = []
  · subst hread
    simp only [extended, if_true, retainedBytes, map_append, sum_append,
      map_cons, map_nil, sum_singleton, postingCost, nil_append]
    omega
  · simp only [extended, hread, if_false, retainedBytes, map_append,
      sum_append, map_cons, map_nil, sum_singleton, postingCost,
      length_append, Nat.add_mul]
    omega

/-- One row of a posting list, the first or a later one. -/
lemma At.posting (h : At sizes budget (extended facts name read) rows kind dec)
    (hkind : kind ≤ postingRow) (hname : isNormalizedRun name.bytes.toList = true)
    (hlast : ∀ last ∈ facts.postings.getLast?, last.name.bytes.toList < name.bytes.toList)
    (hne : chunk ≠ []) (hsmall : chunk.length < 2 ^ 64)
    (horder : (read ++ chunk).IsChain fun prev next => outOfOrder prev next = false)
    (hlen : ∀ occ ∈ chunk, occ.range.len.toNat = Str.len name)
    (hlimit :
      budget.used + sizes.retainedBytes (extended facts name (read ++ chunk)) ≤ budget.limit) :
    ∃ decoder', dec.pushRow sizes (encodeChunk name chunk) = .ok decoder' ∧
      At sizes budget (extended facts name (read ++ chunk)) (rows + 1) postingRow decoder' := by
  refine h.row _ 1 hkind (retainedBytes_extended hne) hlimit ?_
  intro seen hseen hafford
  refine bind_ok_iff.mpr ⟨name, postingName_some hname, payload_ok.mpr ?_⟩
  have hcharge : seen.Affords (chunk.length * sizes.occurrence) := Nat.le_trans (by omega) hafford
  have hgrown : read ++ chunk ≠ [] := by simp [hne]
  by_cases hread : read = []
  · -- the first row of the list also pays for the list
    subst hread
    have hfacts : seen.facts = facts := hseen
    rw [if_pos rfl] at hafford ⊢
    have hopen : (seen.spend (chunk.length * sizes.occurrence)).Affords
        (sizes.posting + Str.len name) := by
      simpa only [Affords, spend, Nat.add_assoc] using hafford
    rw [posting_run hne hsmall hcharge (openPosting_new (by
      rw [← hfacts] at hlast
      exact hlast) hopen) horder hlen, extended_of_ne_nil hgrown]
    simp only [spend, hfacts, Nat.add_assoc]
  · rw [extended_of_ne_nil hread] at hseen
    rw [if_neg hread, Nat.add_zero]
    rw [posting_run hne hsmall hcharge (openPosting_continue (by
      rw [show (seen.spend (chunk.length * sizes.occurrence)).facts = seen.facts from rfl,
        hseen])) horder hlen, extended_of_ne_nil hgrown]
    simp only [spend, hseen]

/-! ## All rows of one kind -/

lemma push_append {first second : List Row} {decoder' : FactDecoder}
    (h : dec.push sizes first = .ok decoder') :
    dec.push sizes (first ++ second) = decoder'.push sizes second := by
  rw [push, foldlM_append]
  change dec.push sizes first >>= _ = _
  rw [h]
  rfl

lemma push_singleton {row : Row} : dec.push sizes [row] = dec.pushRow sizes row := by
  rw [push, foldlM_cons]
  exact bind_pure _

/-- Rows of one kind, fact by fact: `place done` are the facts after `done`, and
`count done` the posting rows. -/
lemma At.all (encode : α → List Row) (place : List α → ArtifactFacts) (count : List α → Nat)
    {items : List α} (hstep : ∀ done a todo, done ++ a :: todo = items → ∀ seen,
      At sizes budget (place done) (count done) kind seen →
      Reads sizes budget seen (encode a) (place (done ++ [a])) (count (done ++ [a])) kind)
    (h : At sizes budget (place []) (count []) kind dec) :
    Reads sizes budget dec (items.flatMap encode) (place items) (count items) kind := by
  suffices hfrom : ∀ todo done seen, done ++ todo = items →
      At sizes budget (place done) (count done) kind seen →
      Reads sizes budget seen (todo.flatMap encode) (place items) (count items) kind from
    hfrom items [] dec rfl h
  intro todo
  induction todo with
  | nil =>
    intro done seen hdone hseen
    rw [append_nil] at hdone
    subst hdone
    exact ⟨seen, rfl, hseen⟩
  | cons a todo ih =>
    intro done seen hdone hseen
    obtain ⟨mid, hpush, hmid⟩ := hstep done a todo hdone seen hseen
    obtain ⟨next, hrest, hnext⟩ := ih (done ++ [a]) mid (by simpa using hdone) hmid
    exact ⟨next, by rw [flatMap_cons, push_append hpush, hrest], hnext⟩

lemma At.mono (h : At sizes budget facts rows kind dec) {later : UInt8}
    (hkind : kind ≤ later) : At sizes budget facts rows later dec :=
  ⟨h.facts_eq, h.budget_eq, h.rows_eq, UInt8.le_trans h.kind_le hkind⟩

/-- Rows of one kind that are no posting rows: each costs `cost` and adds its fact. -/
lemma At.each (encode : α → Row) (place : List α → ArtifactFacts) (cost : α → Nat)
    {later : UInt8} {items : List α} (hkinds : ∀ a, (encode a).rowKind = later)
    (hcost : ∀ done, sizes.retainedBytes (place done) =
      sizes.retainedBytes (place []) + (done.map cost).sum)
    (hlimit : budget.used + sizes.retainedBytes (place items) ≤ budget.limit)
    (hrow : ∀ done a todo, done ++ a :: todo = items → ∀ seen : FactDecoder,
      seen.facts = place done → seen.Affords (cost a) →
      rowOfKind sizes seen (encode a) =
        .ok { seen.spend (cost a) with facts := place (done ++ [a]) })
    (h : At sizes budget (place []) rows later dec) :
    Reads sizes budget dec (items.map encode) (place items) rows later := by
  rw [map_eq_flatMap]
  refine At.all (fun a => [encode a]) place (fun _ => rows) ?_ h
  intro done a todo hitems seen hseen
  rw [Reads, push_singleton, ← hkinds a]
  refine hseen.row (cost a) 0 (hkinds a ▸ UInt8.le_refl _) ?_ ?_ (hrow done a todo hitems)
  · rw [hcost (done ++ [a]), hcost done, map_append, sum_append]
    exact (Nat.add_assoc ..).symm
  · -- a part of the facts costs no more than all of them
    refine Nat.le_trans (Nat.add_le_add_left ?_ _) hlimit
    rw [hcost (done ++ [a]), hcost items, ← hitems]
    simp only [map_append, map_cons, sum_append, sum_cons, map_nil, sum_nil]
    omega

section

variable (h : At sizes budget facts rows kind dec)

include h

lemma At.declarations (hkind : kind ≤ declarationRow) (hnone : facts.declarations = [])
    {items : List DeclarationFact}
    (hdense : Dense (fun fact : DeclarationFact => fact.id.toNat) 0 items)
    (hnames : ∀ fact ∈ items, fact.name.bytes.toList ≠ [])
    (hlimit : budget.used + sizes.retainedBytes { facts with declarations := items } ≤
      budget.limit) :
    Reads sizes budget dec (items.map encodeDeclaration) { facts with declarations := items } rows
      declarationRow := by
  refine At.each encodeDeclaration (fun done => { facts with declarations := done })
    sizes.declarationCost (fun _ => rfl) ?_ hlimit ?_ (hnone ▸ h.mono hkind)
  · intro done
    simp only [retainedBytes, map_nil, sum_nil]
    omega
  · rintro done fact _ rfl _ hseen hafford
    refine bind_ok_iff.mpr ⟨fact.name, indexName_some (hnames fact (by simp)), payload_ok.mpr ?_⟩
    rw [declaration_run (by rw [hseen]; simpa using hdense.at_append) hafford, hseen]

lemma At.imports (hkind : kind ≤ importRow) (hnone : facts.imports = []) {items : List ImportFact}
    (hdense : Dense (fun fact : ImportFact => fact.id.toNat) 0 items)
    (hnames : ∀ fact ∈ items, fact.name.bytes.toList ≠ [])
    (hlimit : budget.used + sizes.retainedBytes { facts with imports := items } ≤ budget.limit) :
    Reads sizes budget dec (items.map encodeImport) { facts with imports := items } rows
      importRow := by
  refine At.each encodeImport (fun done => { facts with imports := done })
    sizes.importCost (fun _ => rfl) ?_ hlimit ?_ (hnone ▸ h.mono hkind)
  · intro done
    simp only [retainedBytes, map_nil, sum_nil]
    omega
  · rintro done fact _ rfl _ hseen hafford
    refine bind_ok_iff.mpr ⟨fact.name, indexName_some (hnames fact (by simp)), payload_ok.mpr ?_⟩
    rw [import_run (by rw [hseen]; simpa using hdense.at_append) hafford, hseen]

lemma At.includes (hkind : kind ≤ includeRow) (hnone : facts.includes = [])
    {items : List IncludeFact} (hdense : Dense (fun fact : IncludeFact => fact.slot.toNat) 1 items)
    (hparents : ∀ fact ∈ items, fact.parent < fact.slot)
    (hlimit : budget.used + sizes.retainedBytes { facts with includes := items } ≤ budget.limit) :
    Reads sizes budget dec (items.map encodeInclude) { facts with includes := items } rows
      includeRow := by
  refine At.each encodeInclude (fun done => { facts with includes := done })
    (fun _ => sizes.include) (fun _ => rfl) ?_ hlimit ?_ (hnone ▸ h.mono hkind)
  · intro done
    simp only [retainedBytes, map_const', sum_replicate, smul_eq_mul, length_nil]
    omega
  · rintro done fact _ rfl _ hseen hafford
    have hslot := hdense.at_append
    refine payload_ok.mpr ?_
    rw [include_run (by rw [hseen]; dsimp only; omega) (hparents fact (by simp)) hafford, hseen]

lemma At.segments (hkind : kind ≤ segmentRow) (hnone : facts.segments = [])
    {items : List SegmentFact} (hfrom : SegmentsFrom 0 items)
    (hlimit : budget.used + sizes.retainedBytes { facts with segments := items } ≤ budget.limit) :
    Reads sizes budget dec (items.map encodeSegment) { facts with segments := items } rows
      segmentRow := by
  refine At.each encodeSegment (fun done => { facts with segments := done })
    (fun _ => sizes.segment) (fun _ => rfl) ?_ hlimit ?_ (hnone ▸ h.mono hkind)
  · intro done
    simp only [retainedBytes, map_const', sum_replicate, smul_eq_mul, length_nil]
    omega
  · rintro done _ _ rfl _ hseen hafford
    obtain ⟨hstart, hne⟩ := SegmentsFrom.at_append hfrom
    refine payload_ok.mpr ?_
    rw [segment_run (by rw [hstart, hseen]) hne hafford, hseen]

end

lemma occurrencesPerRow_lt (name : Str) : occurrencesPerRow name < 2 ^ 64 := by
  refine Nat.lt_of_le_of_lt (Nat.div_le_self _ _) ?_
  rw [maxRowBatchBytes, lengthBytes]
  omega

/-- The rows of one posting list rejoin to the list. -/
lemma At.chunks {posting : PostingFact} (h : At sizes budget facts rows kind dec)
    (hkind : kind ≤ postingRow) (hwf : PostingWf posting)
    (hkey : Str.len posting.name ≤ maxIndexKeyBytes)
    (hlast : ∀ last ∈ facts.postings.getLast?, last.name.bytes.toList < posting.name.bytes.toList)
    (hlimit : budget.used + sizes.retainedBytes { facts with
      postings := facts.postings ++ [posting] } ≤ budget.limit) :
    Reads sizes budget dec (encodePosting posting)
      { facts with postings := facts.postings ++ [posting] }
      (rows + (encodePosting posting).length) postingRow := by
  have hsize := (occurrencesPerRow_pos hkey).2
  have hflatten := flatten_chunks hsize posting.occurrences
  have hall : sizes.retainedBytes (extended facts posting.name posting.occurrences) =
      sizes.retainedBytes { facts with postings := facts.postings ++ [posting] } := by
    rw [extended_of_ne_nil hwf.nonempty]
  suffices hrun : Reads sizes budget dec (encodePosting posting) (extended facts posting.name
      (Facts.chunks (occurrencesPerRow posting.name) posting.occurrences).flatten)
      (rows + (Facts.chunks (occurrencesPerRow posting.name) posting.occurrences).length)
      postingRow by
    rw [hflatten, extended_of_ne_nil hwf.nonempty] at hrun
    simpa [encodePosting] using hrun
  rw [encodePosting, map_eq_flatMap]
  refine At.all (fun chunk => [encodeChunk posting.name chunk])
    (fun done => extended facts posting.name done.flatten) (fun done => rows + done.length)
    ?_ (h.mono hkind)
  -- one row for each chunk; the rows before it gave the chunks `done`
  intro done chunk todo hitems seen hseen
  have hchunk : chunk ∈ Facts.chunks (occurrencesPerRow posting.name) posting.occurrences := by
    rw [← hitems]
    simp
  obtain ⟨hne, hle⟩ := mem_chunks hsize hchunk
  have hocc : posting.occurrences = (done.flatten ++ chunk) ++ todo.flatten := by
    rw [← hflatten, ← hitems]
    simp
  have horder := hwf.ordered
  rw [hocc] at horder
  rw [Reads, push_singleton]
  have hstep := hseen.posting (UInt8.le_refl _) hwf.name hlast hne
    (Nat.lt_of_le_of_lt hle (occurrencesPerRow_lt _)) horder.left_of_append
    (fun occ hmem => hwf.lengths occ (by rw [hocc]; simp [hmem])) ?_
  · simpa [Nat.add_assoc] using hstep
  · -- a part of the list costs no more than the whole list
    refine Nat.le_trans (Nat.add_le_add_left ?_ _) hlimit
    rw [← hall, hocc, extended_of_ne_nil (by simp [hne]), extended_of_ne_nil (by simp [hne])]
    simp only [retainedBytes, postingCost, map_append, map_cons,
      map_nil, sum_append, sum_singleton, length_append, Nat.add_mul]
    omega

lemma At.postings (h : At sizes budget facts rows kind dec) (hkind : kind ≤ postingRow)
    (hnone : facts.postings = []) {items : List PostingFact}
    (horder : items.IsChain fun prev next => prev.name.bytes.toList < next.name.bytes.toList)
    (hwf : ∀ posting ∈ items, PostingWf posting)
    (hkeys : ∀ posting ∈ items, Str.len posting.name ≤ maxIndexKeyBytes)
    (hlimit : budget.used + sizes.retainedBytes { facts with postings := items } ≤ budget.limit) :
    Reads sizes budget dec (items.flatMap encodePosting) { facts with postings := items }
      (rows + (items.flatMap encodePosting).length) postingRow := by
  refine At.all encodePosting (fun done => { facts with postings := done })
    (fun done => rows + (done.flatMap encodePosting).length) ?_ ?_
  · rintro done posting _ rfl _ hseen
    obtain ⟨-, -, hlast⟩ := isChain_append.mp horder
    have hstep := hseen.chunks (UInt8.le_refl _) (hwf posting (by simp)) (hkeys posting (by simp))
      (fun last hmem => hlast last hmem posting rfl)
      (Nat.le_trans (Nat.add_le_add_left ?_ _) hlimit)
    · simpa [Nat.add_assoc] using hstep
    · simp only [retainedBytes, map_append, map_cons, map_nil, sum_append, sum_cons, sum_nil]
      omega
  · have hstart := h.mono hkind
    rw [show facts = { facts with postings := [] } by rw [← hnone]] at hstart
    exact hstart

end FactDecoder

/-! ## All rows, in any batches -/

namespace FactDecoder

open ByteReader

variable {sizes : FactSizes} {budget : FactBudget} {dec : FactDecoder} {facts : ArtifactFacts}

lemma pushAll_eq_push (batches : List (List Row)) :
    dec.pushAll sizes batches = dec.push sizes batches.flatten := by
  induction batches generalizing dec with
  | nil => rfl
  | cons batch batches ih =>
    rw [pushAll, foldlM_cons, flatten_cons]
    rw [show dec.push sizes (batch ++ batches.flatten) = _ from foldlM_append]
    congr 1
    funext next
    exact ih

/-- The facts that rows carry, without what the header adds. -/
def rowFacts (facts : ArtifactFacts) : ArtifactFacts :=
  { facts with slotLengths := [], expandedLength := 0, coverage := [] }

lemma push_encodeRows (hwf : FactsWf facts) (hadm : Admitted facts)
    (hlimit : budget.used + sizes.retainedBytes facts ≤ budget.limit) :
    Reads sizes budget (new budget) (encodeRows facts) (rowFacts facts)
      (facts.postings.flatMap encodePosting).length segmentRow := by
  have hzero : At sizes budget {} 0 0 (new budget) :=
    ⟨rfl, by simp [new, retainedBytes], rfl, UInt8.le_refl _⟩
  have hretained : ∀ part : ArtifactFacts, part.slotLengths = [] ∧
      part.declarations <+: facts.declarations ∧ part.imports <+: facts.imports ∧
      part.postings <+: facts.postings ∧ part.includes <+: facts.includes ∧
      part.segments <+: facts.segments →
      budget.used + sizes.retainedBytes part ≤ budget.limit := by
    rintro part ⟨hslots, ⟨declarations, hdecls⟩, ⟨imports, himports⟩, ⟨postings, hposts⟩,
      hincludes, hsegs⟩
    refine Nat.le_trans (Nat.add_le_add_left ?_ _) hlimit
    have hincludes := Nat.mul_le_mul_right sizes.include hincludes.length_le
    have hsegs := Nat.mul_le_mul_right sizes.segment hsegs.length_le
    simp only [retainedBytes, hslots, ← hdecls, ← himports, ← hposts,
      map_append, sum_append, length_nil]
    omega
  obtain ⟨_, h1, a1⟩ := hzero.declarations (by decide) rfl hwf.declaration_ids
    hwf.declaration_names (hretained _ (by simp))
  obtain ⟨_, h2, a2⟩ := a1.imports (by decide) rfl hwf.import_ids
    hwf.import_names (hretained _ (by simp))
  obtain ⟨_, h3, a3⟩ := a2.postings (by decide) rfl hwf.posting_order hwf.postings
    hadm.keys (hretained _ (by simp))
  obtain ⟨_, h4, a4⟩ := a3.includes (by decide) rfl hwf.include_slots
    hwf.include_parents (hretained _ (by simp))
  obtain ⟨d5, h5, a5⟩ := a4.segments (by decide) rfl hwf.segments
    (hretained _ (by simp))
  refine ⟨d5, ?_, by simpa [rowFacts] using a5⟩
  simp only [encodeRows, append_assoc]
  rw [push_append h1, push_append h2, push_append h3, push_append h4, h5]

/-! ## The header -/

lemma coverage_run {read reasons : List CoverageReason}
    (horder : (read ++ reasons).IsChain fun prev next => prev.rank < next.rank) :
    (coverage reasons.length read).run
        (reasons.flatMap (fun reason => Encoder.u8 reason.tag) ++ rest) =
      .ok (read ++ reasons, rest) := by
  have hreason : TagTable Facts.reasons CoverageReason.tag := tagged_inverts
  induction reasons generalizing read with
  | nil =>
    rw [append_nil]
    exact pure_ok.mpr ⟨rfl, rfl⟩
  | cons reason reasons ih =>
    have hlast : read.getLast?.any (fun last => decide (reason.rank ≤ last.rank)) = false :=
      getLast?_any_eq_false horder fun _ => by simp
    have happend : read ++ [reason] ++ reasons = read ++ reason :: reasons := by simp
    rw [length_cons, flatMap_cons, append_assoc, coverage,
      hreason.bind_run, if_neg (by rw [hlast]; exact Bool.false_ne_true),
      ih (by rw [happend]; exact horder), happend]

/-- What the header of `facts` is read back as. -/
def headerOf (facts : ArtifactFacts) (postingRows : Nat) : Supplemental where
  counts := [facts.declarations.length, facts.imports.length, postingRows, facts.includes.length,
    facts.segments.length].map UInt32.ofNat
  slotLengths := facts.slotLengths
  expandedLength := facts.expandedLength
  coverage := facts.coverage

lemma supplemental_run (postingRows : Nat)
    (hheader : supplementalBytes facts ≤ maxSupplementalBytes)
    (horder : facts.coverage.IsChain fun prev next => prev.rank < next.rank)
    (hafford : dec.Affords (facts.slotLengths.length * 4)) :
    dec.supplemental.run (encodeSupplemental facts postingRows) =
      .ok ((dec.spend (facts.slotLengths.length * 4), headerOf facts postingRows), []) := by
  simp only [supplementalBytes, lengthBytes, maxSupplementalBytes] at hheader
  have hsize : UInt64.size = 2 ^ 64 := rfl
  have hslots : (UInt64.ofNat facts.slotLengths.length).toNat = facts.slotLengths.length :=
    UInt64.toNat_ofNat_of_lt' (by omega)
  have hreasons : (UInt64.ofNat facts.coverage.length).toNat = facts.coverage.length :=
    UInt64.toNat_ofNat_of_lt' (by omega)
  have hcov : (coverage facts.coverage.length []).run
      (facts.coverage.flatMap (fun reason => Encoder.u8 reason.tag) ++ []) =
        .ok (facts.coverage, []) := coverage_run horder
  simp only [encodeSupplemental, Encoder.seq, Encoder.length, append_assoc, supplemental]
  rw [show ([facts.declarations.length, facts.imports.length, postingRows, facts.includes.length,
    facts.segments.length].flatMap fun count => Encoder.u32 (UInt32.ofNat count)) =
      (headerOf facts postingRows).counts.flatMap Encoder.u32 by simp [headerOf]]
  rw [(u32_exact.times 5).bind_run (v := ⟨(headerOf facts postingRows).counts, rfl⟩)
      (fun _ _ => trivial),
    length_inverts.bind_run, remaining_bind_run, hslots,
    if_neg (by simp [length_flatMap]; omega),
    charge_bind_run hafford,
    (u32_exact.times facts.slotLengths.length).bind_run (v := ⟨facts.slotLengths, rfl⟩)
      (fun _ _ => trivial),
    u32_inverts.bind_run, length_inverts.bind_run,
    remaining_bind_run, hreasons,
    if_neg (by simp [length_flatMap, Encoder.u8])]
  rw [append_nil] at hcov
  rw [bind_run_of_ok hcov]
  rfl

end FactDecoder

/-! ## Round trip -/

lemma countP_encodeRows (facts : ArtifactFacts) :
    (encodeRows facts).countP (fun row => row.rowKind == postingRow) =
      (facts.postings.flatMap encodePosting).length := by
  have hpost : ∀ row ∈ facts.postings.flatMap encodePosting,
      (row.rowKind == postingRow) = true := by
    intro row hrow
    obtain ⟨_, -, hrow⟩ := mem_flatMap.mp hrow
    obtain ⟨_, -, rfl⟩ := mem_map.mp hrow
    rfl
  rw [← countP_eq_length] at hpost
  have hnone : ∀ {α : Type} (encode : α → Row) (kind : UInt8) (items : List α),
      (∀ a, (encode a).rowKind = kind) → kind ≠ postingRow →
      (items.map encode).countP (fun row => row.rowKind == postingRow) = 0 := by
    intro α encode kind items hkind hne
    rw [countP_eq_zero, forall_mem_map]
    intro a _
    simpa [hkind a] using hne
  simp only [encodeRows, countP_append, hpost]
  rw [hnone encodeDeclaration declarationRow _ (fun _ => rfl) (by decide),
    hnone encodeImport importRow _ (fun _ => rfl) (by decide),
    hnone encodeInclude includeRow _ (fun _ => rfl) (by decide),
    hnone encodeSegment segmentRow _ (fun _ => rfl) (by decide)]
  omega

lemma FactsWf.validate (h : FactsWf facts) : facts.validate = .ok () :=
  ArtifactFacts.validate_ok_iff.mpr {
    slots := h.slots
    unresolved := h.coverage_includes
    unmapped_declarations := h.coverage_declarations
    unmapped_imports := h.coverage_imports
    declarations := h.declarations_located
    parents := h.declaration_parents
    imports := h.imports_located
    occurrences := h.occurrences_located
    includes := h.includes_located
    covered := h.covered
    segments := h.segments_located }

/-- The decoder that has seen all rows accepts the header and returns the facts. -/
lemma FactDecoder.finish_encodeSupplemental {sizes : FactSizes} {budget : FactBudget}
    {dec : FactDecoder} {kind : UInt8} (hwf : FactsWf facts) (hadm : Admitted facts)
    (hlimit : budget.used + sizes.retainedBytes facts ≤ budget.limit)
    (h : At sizes budget (rowFacts facts) (facts.postings.flatMap encodePosting).length kind dec) :
    dec.finish (encodeSupplemental facts (facts.postings.flatMap encodePosting).length) =
      .ok facts := by
  have hslots : dec.Affords (facts.slotLengths.length * 4) := by
    apply h.affords
    simp only [retainedBytes, rowFacts, length_nil] at hlimit ⊢
    omega
  have hheader := supplemental_run (facts.postings.flatMap encodePosting).length
    hadm.header hwf.coverage_order hslots
  -- the counts fit in 32 bits, since every counted row was admitted
  have hrows := hadm.rows
  simp only [encodeRows, length_append, length_map, maxArtifactRows] at hrows
  have hfits : ∀ n ≤ 1024 * 1024, (UInt32.ofNat n).toNat = n := fun n hn =>
    UInt32.toNat_ofNat_of_lt' (hn.trans_lt (by decide))
  have hcounts : (headerOf facts (facts.postings.flatMap encodePosting).length).counts.map
      UInt32.toNat = (dec.spend (facts.slotLengths.length * 4)).counts := by
    simp only [headerOf, counts, spend, h.facts_eq, h.rows_eq, rowFacts, map_cons, map_nil]
    rw [hfits _ (by omega), hfits _ (by omega), hfits _ (by omega), hfits _ (by omega),
      hfits _ (by omega)]
  have hfacts : (headerOf facts (facts.postings.flatMap encodePosting).length).complete
      (dec.spend (facts.slotLengths.length * 4)).facts = facts := by
    simp only [Supplemental.complete, headerOf, spend, h.facts_eq, rowFacts]
  simp only [finish, bind_ok_iff, Prod.exists, pure_ok_iff]
  refine ⟨_, _, payload_ok.mpr hheader, (), ?_, (), ?_, ?_⟩
  · rw [checkCounts, if_neg (not_not.mpr hcounts)]
  · rw [hfacts]
    exact hwf.validate
  · rw [hfacts]

/-- Well-formed facts that the encoder admits survive the row format, however the
rows are cut into batches. -/
theorem decodeFacts_encodeFacts (sizes : FactSizes) (facts : ArtifactFacts) (hwf : FactsWf facts)
    (encoded : EncodedFacts) (henc : encodeFacts facts = .ok encoded)
    (batches : List (List Row)) (hsplit : batches.flatten = encoded.rows)
    (budget : FactBudget) (hbudget : budget.used + sizes.retainedBytes facts ≤ budget.limit) :
    decodeFacts sizes budget batches encoded.supplemental = .ok facts := by
  simp only [encodeFacts, bind_ok_iff, pure_ok_iff] at henc
  obtain ⟨_, hadmit, rfl⟩ := henc
  have hadmitted := admitted_of_encodedContentBytes hadmit
  obtain ⟨decoder, hpush, hat⟩ := FactDecoder.push_encodeRows hwf hadmitted hbudget
  refine bind_ok_iff.mpr ⟨decoder, ?_, ?_⟩
  · rw [FactDecoder.pushAll_eq_push, hsplit]
    exact hpush
  · simp only [countP_encodeRows]
    exact FactDecoder.finish_encodeSupplemental hwf hadmitted hbudget hat

/-- A root text of ten bytes with one include of four bytes after its second byte. -/
def includingFacts : ArtifactFacts where
  slotLengths := [10, 4]
  expandedLength := 12
  declarations := [overlongDeclaration]
  postings := [{
    name := overlongDeclaration.name
    occurrences := [{ slot := 0, range := nameRange, activity := .active },
      { slot := 1, range := ⟨2, 3, by decide⟩, activity := .active }] }]
  includes := [{ slot := 1, parent := 0, directive := ⟨2, 4, by decide⟩, expansion := .expanded }]
  segments := [{ expanded := ⟨0, 2, by decide⟩, target := .source 0 0 },
    { expanded := ⟨2, 6, by decide⟩, target := .source 1 0 },
    { expanded := ⟨6, 12, by decide⟩, target := .source 0 4 }]

lemma includingFacts_wf : FactsWf includingFacts where
  declaration_ids := Dense.cons_iff.mpr ⟨rfl, fun i a h => by simp at h⟩
  declaration_names := by decide
  declaration_parents := by simp [includingFacts, overlongDeclaration]
  import_ids := fun i a h => by simp [includingFacts] at h
  import_names := by decide
  posting_order := by simp [includingFacts]
  postings := forall_mem_singleton.mpr ⟨by decide, by decide, by decide, by decide⟩
  include_slots := Dense.cons_iff.mpr ⟨rfl, fun i a h => by simp at h⟩
  include_parents := by decide
  slots := rfl
  segments := ⟨rfl, rfl, rfl, rfl, rfl, rfl, trivial⟩
  covered := ⟨_, rfl, rfl⟩
  coverage_order := by decide
  coverage_includes := by decide
  coverage_declarations := by decide
  coverage_imports := by decide
  declarations_located := forall_mem_singleton.mpr ⟨10, rfl, by decide⟩
  imports_located := by simp [includingFacts]
  occurrences_located := forall_mem_singleton.mpr (forall_mem_cons.mpr
    ⟨⟨10, rfl, by decide⟩, forall_mem_singleton.mpr ⟨4, rfl, by decide⟩⟩)
  includes_located := forall_mem_singleton.mpr ⟨10, rfl, by decide⟩
  segments_located := by
    intro segment hseg slot start htarget
    simp only [includingFacts, mem_cons, not_mem_nil, or_false] at hseg
    rcases hseg with rfl | rfl | rfl <;> cases htarget
    · exact ⟨10, rfl, by decide⟩
    · exact ⟨4, rfl, by decide⟩
    · exact ⟨10, rfl, by decide⟩

/-- The facts read back when every row is a batch of its own. -/
theorem decodeFacts_encodeFacts_includingFacts :
    ∃ encoded, encodeFacts includingFacts = .ok encoded ∧
      decodeFacts exampleSizes { limit := 4096, used := 0 } (encoded.rows.map fun row => [row])
        encoded.supplemental = .ok includingFacts := by
  refine ⟨{ rows := encodeRows includingFacts
            supplemental := encodeSupplemental includingFacts 1 }, by decide +kernel, ?_⟩
  exact decodeFacts_encodeFacts exampleSizes includingFacts includingFacts_wf
    { rows := encodeRows includingFacts, supplemental := encodeSupplemental includingFacts 1 }
    (by decide +kernel) _ (by rw [← flatMap_def, flatMap_singleton']) _ (by decide)

end Lint4d.Facts
