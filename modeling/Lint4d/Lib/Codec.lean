import Mathlib

/-!
# Exact byte codecs

A library for hand-written encoders and decoders that are meant to be exact
inverses of each other.  A decoder is a parser that consumes a part of its
input from the front; an encoder is the list of tokens it appends.

The central notion is `Exact valid enc dec`: the parser `dec` accepts an input
with value `v` and remainder `rest` precisely when `v` is valid and the input
is `enc v` followed by `rest`.  One statement carries

- the round trip (`Exact.complete`),
- canonicity of what is accepted (`Exact.sound`), and
- prefix-freeness of the encoding (`Exact.append_inj`), which is what makes
  concatenations of encodings unambiguous.

## Contents

- `Parser`: the parser monad and the inversion lemmas of its operations
- `Exact`: exact codecs, their consequences and their closure rules
- `leBytes` / `ofLeBytes`: fixed-width little-endian integers
-/

namespace Lint4d.Lib

open List

variable {width : Nat}

/-- A parser over tokens `τ`: it fails with an error, or returns a value and the
tokens it did not consume. -/
abbrev Parser (ε τ : Type) := StateT (List τ) (Except ε)

namespace Parser

variable {ε τ α β : Type} {input rest : List τ} {d : Parser ε τ α} {k : α → Parser ε τ β} {b : β}

/-- Inversion of sequencing: a successful run passes through an intermediate
remainder. -/
lemma bind_ok : (d >>= k).run input = .ok (b, rest) ↔
    ∃ a mid, d.run input = .ok (a, mid) ∧ (k a).run mid = .ok (b, rest) := by
  rw [StateT.run_bind]
  cases h : d.run input with
  | error e => simp [bind, Except.bind]
  | ok p =>
    obtain ⟨a, mid⟩ := p
    simp [bind, Except.bind]

lemma bind_run_of_ok {mid : List τ} {a : α} (h : d.run input = .ok (a, mid))
    (k : α → Parser ε τ β) : (d >>= k).run input = (k a).run mid := by
  rw [StateT.run_bind, h]
  rfl

lemma pure_ok {a b : α} :
    (pure a : Parser ε τ α).run input = .ok (b, rest) ↔ b = a ∧ input = rest := by
  rw [StateT.run_pure]
  simp [pure, Except.pure, eq_comm]

lemma throw_ok {e : ε} {b : α} : (throw e : Parser ε τ α).run input = .ok (b, rest) ↔ False := by
  simp [throw, throwThe, MonadExceptOf.throw, StateT.lift, StateT.run, bind, Except.bind]

lemma throw_bind_ok {e : ε} : (throw e >>= k : Parser ε τ β).run input = .ok (b, rest) ↔ False := by
  simp only [bind_ok, throw_ok, false_and, exists_false]

lemma map_ok {f : α → β} :
    (f <$> d).run input = .ok (b, rest) ↔ ∃ a, d.run input = .ok (a, rest) ∧ b = f a := by
  rw [map_eq_pure_bind, bind_ok]
  constructor
  · rintro ⟨a, _, hd, hk⟩
    obtain ⟨rfl, rfl⟩ := pure_ok.mp hk
    exact ⟨a, hd, rfl⟩
  · rintro ⟨a, hd, rfl⟩
    exact ⟨a, rest, hd, pure_ok.mpr ⟨rfl, rfl⟩⟩

/-- The next `count` tokens, or the error `short` when fewer remain. -/
def take (short : ε) (count : Nat) : Parser ε τ {v : List τ // v.length = count} := fun input =>
  if h : count ≤ input.length then
    .ok (⟨input.take count, length_take_of_le h⟩, input.drop count)
  else .error short

lemma take_ok {short : ε} {count : Nat} {v : {v : List τ // v.length = count}} :
    (take short count).run input = .ok (v, rest) ↔ input = v.val ++ rest := by
  simp only [take, StateT.run]
  constructor
  · intro h
    split at h
    · cases h
      exact (take_append_drop count input).symm
    · cases h
  · rintro rfl
    obtain ⟨v, rfl⟩ := v
    simp

/-- Accept only an exhausted input. -/
def finish (trailing : ε) : Parser ε τ Unit := fun input =>
  if input.isEmpty then .ok ((), input) else .error trailing

lemma finish_ok {trailing : ε} {u : Unit} :
    (finish trailing).run input = .ok (u, rest) ↔ input = [] ∧ rest = [] := by
  simp only [finish, StateT.run]
  cases input <;> simp [eq_comm]

/-- Run a parser `count` times and collect the values in order. -/
def times (d : Parser ε τ α) : (count : Nat) → Parser ε τ {l : List α // l.length = count}
  | 0 => pure ⟨[], rfl⟩
  | count + 1 => do
    let a ← d
    let as ← times d count
    pure ⟨a :: as.val, congrArg Nat.succ as.property⟩

end Parser

/-! ## Exact codecs -/

section Exact

variable {ε τ α β : Type}

/-- `dec` accepts exactly the encodings of valid values, each followed by
whatever it leaves. -/
def Exact (valid : α → Prop) (enc : α → List τ) (dec : Parser ε τ α) : Prop :=
  ∀ input v rest, dec.run input = .ok (v, rest) ↔ valid v ∧ input = enc v ++ rest

namespace Exact

variable {valid : α → Prop} {enc : α → List τ} {dec : Parser ε τ α} {v : α} {s t : List τ}

section

variable (h : Exact valid enc dec)

include h

lemma complete (hv : valid v) (rest : List τ) : dec.run (enc v ++ rest) = .ok (v, rest) :=
  (h _ _ _).mpr ⟨hv, rfl⟩

lemma sound {input rest : List τ}
    (hrun : dec.run input = .ok (v, rest)) : valid v ∧ input = enc v ++ rest :=
  (h _ _ _).mp hrun

/-- Prefix-freeness: an encoding followed by anything determines the value and
what follows. -/
lemma append_inj {w : α} (hv : valid v) (hw : valid w)
    (heq : enc v ++ s = enc w ++ t) : v = w ∧ s = t := by
  have hrun := h.complete hv s
  rw [heq, h.complete hw t] at hrun
  cases hrun
  exact ⟨rfl, rfl⟩

/-- Sequencing after an exact codec, as the equation its callers rewrite with. -/
lemma bind_ok {input rest : List τ} :
    (dec >>= k).run input = .ok (b, rest) ↔
      ∃ a, valid a ∧ ∃ mid, input = enc a ++ mid ∧ (k a).run mid = .ok (b, rest) := by
  rw [Parser.bind_ok]
  constructor
  · rintro ⟨a, mid, hd, hk⟩
    obtain ⟨ha, rfl⟩ := h.sound hd
    exact ⟨a, ha, mid, rfl, hk⟩
  · rintro ⟨a, ha, mid, rfl, hk⟩
    exact ⟨a, mid, h.complete ha mid, hk⟩

/-- Reading past an encoding: the form in which a known input is decoded. -/
lemma bind_run (hv : valid v) (k : α → Parser ε τ β)
    (rest : List τ) : (dec >>= k).run (enc v ++ rest) = (k v).run rest :=
  Parser.bind_run_of_ok (h.complete hv rest) k

lemma of_enc {enc' : α → List τ} (henc : ∀ v, enc' v = enc v) : Exact valid enc' dec := by
  intro input v rest
  rw [henc, h]

end

/-- Nothing is read for a value that validity determines. -/
lemma of_pure {a : α} (h : ∀ v, valid v ↔ v = a) :
    Exact valid (fun _ => []) (pure a : Parser ε τ α) := by
  intro input v rest
  rw [Parser.pure_ok, h, nil_append]

lemma of_throw {e : ε} (h : ∀ v, ¬ valid v) : Exact valid enc (throw e : Parser ε τ α) := by
  intro input v rest
  rw [Parser.throw_ok, false_iff]
  exact fun hv => h v hv.1

/-- A value built from what an exact codec reads. -/
lemma bind_pure {valid' : β → Prop} {enc' : β → List τ} {f : α → β} (h : Exact valid enc dec)
    (henc : ∀ a, enc' (f a) = enc a) (hvalid : ∀ v, valid' v ↔ ∃ a, valid a ∧ v = f a) :
    Exact valid' enc' (dec >>= fun a => pure (f a)) := by
  intro input v rest
  simp only [h.bind_ok, Parser.pure_ok, hvalid]
  constructor
  · rintro ⟨a, ha, _, rfl, rfl, rfl⟩
    exact ⟨⟨a, ha, rfl⟩, by rw [henc]⟩
  · rintro ⟨⟨a, ha, rfl⟩, rfl⟩
    exact ⟨a, ha, rest, by rw [henc], rfl, rfl⟩

/-- A part of the value, then the rest of it knowing the part. -/
lemma andThen {valid' : β → Prop} {tail : β → List τ} (h : Exact (fun _ => True) enc dec)
    (part : β → α) (hk : ∀ a, Exact (fun v => valid' v ∧ part v = a) tail (k a)) :
    Exact valid' (fun v => enc (part v) ++ tail v) (dec >>= k) := by
  intro input v rest
  rw [h.bind_ok, append_assoc]
  constructor
  · rintro ⟨a, -, _, rfl, hrun⟩
    obtain ⟨⟨hv, rfl⟩, rfl⟩ := (hk a).sound hrun
    exact ⟨hv, rfl⟩
  · rintro ⟨hv, rfl⟩
    exact ⟨part v, trivial, _, rfl, (hk _).complete ⟨hv, rfl⟩ rest⟩

/-- An exact codec of items gives one of lists of a known length. -/
lemma times (h : Exact valid enc dec) (count : Nat) :
    Exact (fun l : {l : List α // l.length = count} => ∀ v ∈ l.val, valid v)
      (fun l => l.val.flatMap enc) (Parser.times dec count) := by
  induction count with
  | zero =>
    rintro input ⟨l, hl⟩ rest
    obtain rfl := length_eq_zero_iff.mp hl
    rw [Parser.times, Parser.pure_ok]
    simp
  | succ count ih =>
    rintro input ⟨l, hl⟩ rest
    rw [Parser.times, h.bind_ok]
    constructor
    · rintro ⟨a, ha, _, rfl, hk⟩
      obtain ⟨⟨as, hlen⟩, has, _, rfl, hp⟩ := ih.bind_ok.mp hk
      obtain ⟨heq, rfl⟩ := Parser.pure_ok.mp hp
      obtain rfl : l = a :: as := congrArg Subtype.val heq
      exact ⟨forall_mem_cons.mpr ⟨ha, has⟩, by simp⟩
    · rintro ⟨hall, rfl⟩
      obtain ⟨a, as, rfl⟩ := exists_cons_of_length_eq_add_one hl
      refine ⟨a, hall a (by simp), as.flatMap enc ++ rest, by simp, ?_⟩
      exact ih.bind_ok.mpr ⟨⟨as, by simpa using hl⟩, (forall_mem_cons.mp hall).2,
        rest, rfl, Parser.pure_ok.mpr ⟨rfl, rfl⟩⟩

/-- Concatenated encodings of two lists of the same length determine the lists:
no per-item length is needed. -/
lemma flatMap_inj (h : Exact valid enc dec) {l m : List α} (hl : ∀ v ∈ l, valid v)
    (hm : ∀ v ∈ m, valid v) (hlen : l.length = m.length)
    (heq : l.flatMap enc ++ s = m.flatMap enc ++ t) : l = m ∧ s = t := by
  obtain ⟨hval, hrest⟩ := (h.times m.length).append_inj (v := ⟨l, hlen⟩) (w := ⟨m, rfl⟩) hl hm heq
  exact ⟨congrArg Subtype.val hval, hrest⟩

end Exact

end Exact

/-! ## Little-endian integers -/

/-- The `width` low bytes of `n`, least significant first. -/
def leBytes : Nat → Nat → List UInt8
  | 0, _ => []
  | width + 1, n => UInt8.ofNat n :: leBytes width (n / 256)

/-- The number a little-endian byte string denotes. -/
def ofLeBytes : List UInt8 → Nat
  | [] => 0
  | b :: bs => b.toNat + 256 * ofLeBytes bs

@[simp] lemma length_leBytes (width n : Nat) : (leBytes width n).length = width := by
  induction width generalizing n with
  | zero => rfl
  | succ width ih => simp [leBytes, ih]

lemma ofLeBytes_lt (bs : List UInt8) : ofLeBytes bs < 256 ^ bs.length := by
  induction bs with
  | nil => simp [ofLeBytes]
  | cons b bs =>
    have hb : b.toNat < 256 := b.toNat_lt
    rw [ofLeBytes, length_cons, pow_succ]
    omega

lemma ofLeBytes_leBytes {n : Nat} (h : n < 256 ^ width) : ofLeBytes (leBytes width n) = n := by
  induction width generalizing n with
  | zero => simp [leBytes, ofLeBytes]; omega
  | succ width ih =>
    have hdiv : n / 256 < 256 ^ width := by
      rw [Nat.div_lt_iff_lt_mul (by decide), ← pow_succ]
      exact h
    rw [leBytes, ofLeBytes, ih hdiv, UInt8.toNat_ofNat']
    omega

lemma leBytes_ofLeBytes (bs : List UInt8) : leBytes bs.length (ofLeBytes bs) = bs := by
  induction bs with
  | nil => rfl
  | cons b bs ih =>
    have hb : b.toNat < 256 := b.toNat_lt
    have hdiv : (b.toNat + 256 * ofLeBytes bs) / 256 = ofLeBytes bs := by omega
    have hhead : UInt8.ofNat (b.toNat + 256 * ofLeBytes bs) = b := by
      apply UInt8.toNat_inj.mp
      rw [UInt8.toNat_ofNat']
      omega
    rw [length_cons, ofLeBytes, leBytes, hdiv, ih, hhead]

/-! ## Fixed-width and counted reads

Each read takes the error it reports on a short input, so that decoders with
different error types share them. -/

/-- Every value of the type is valid. -/
abbrev Always {α : Type} (_ : α) : Prop := True

namespace Parser

variable {ε α : Type}

/-- A value of a fixed number of bytes. -/
def fixed (short : ε) (width : Nat) (ofBytes : {v : List UInt8 // v.length = width} → α) :
    Parser ε UInt8 α := do
  let bytes ← take short width
  pure (ofBytes bytes)

def byte (short : ε) : Parser ε UInt8 UInt8 :=
  fixed short 1 fun bytes => bytes.val.head (ne_nil_of_length_eq_add_one bytes.property)

def word16 (short : ε) : Parser ε UInt8 UInt16 :=
  fixed short 2 fun bytes => UInt16.ofNat (ofLeBytes bytes.val)

def word32 (short : ε) : Parser ε UInt8 UInt32 :=
  fixed short 4 fun bytes => UInt32.ofNat (ofLeBytes bytes.val)

def word64 (short : ε) : Parser ε UInt8 UInt64 :=
  fixed short 8 fun bytes => UInt64.ofNat (ofLeBytes bytes.val)

/-- A byte that is 0 or 1. -/
def flag (short invalid : ε) : Parser ε UInt8 Bool := do
  match ← byte short with
  | 0 => pure false
  | 1 => pure true
  | _ => throw invalid

/-- A 64-bit length, then that many bytes. -/
def counted (short : ε) : Parser ε UInt8 {v : List UInt8 // v.length < 2 ^ 64} := do
  let length ← word64 short
  let bytes ← take short length.toNat
  pure ⟨bytes.val, bytes.property.trans_lt length.toNat_lt⟩

end Parser

section Words

variable {ε α : Type} (short : ε)

lemma exact_take {τ : Type} (count : Nat) :
    Exact Always Subtype.val (Parser.take short count : Parser ε τ _) := by
  intro input v rest
  simp [Parser.take_ok]

/-- A fixed-width read inverts a fixed-width write when the two conversions
between the value and its bytes do. -/
lemma exact_fixed {enc : α → List UInt8} {ofBytes : {v : List UInt8 // v.length = width} → α}
    (hlen : ∀ v, (enc v).length = width) (hleft : ∀ v, ofBytes ⟨enc v, hlen v⟩ = v)
    (hright : ∀ bs, enc (ofBytes bs) = bs.val) :
    Exact Always enc (Parser.fixed short width ofBytes) := by
  refine (exact_take short width).bind_pure hright fun v => ?_
  simp only [true_and, true_iff]
  exact ⟨⟨enc v, hlen v⟩, (hleft v).symm⟩

/-- Little-endian words: `toNat` and `ofNat` convert between the word and the
number its bytes denote. -/
lemma exact_word {toNat : α → Nat} {ofNat : Nat → α} (hlt : ∀ v, toNat v < 256 ^ width)
    (hleft : ∀ v, ofNat (toNat v) = v) (hright : ∀ n, n < 256 ^ width → toNat (ofNat n) = n) :
    Exact Always (fun v => leBytes width (toNat v))
      (Parser.fixed short width fun bytes => ofNat (ofLeBytes bytes.val)) := by
  refine exact_fixed short (fun v => length_leBytes width (toNat v)) (fun v => ?_) ?_
  · rw [ofLeBytes_leBytes (hlt v), hleft]
  · rintro ⟨bs, rfl⟩
    rw [hright _ (ofLeBytes_lt bs), leBytes_ofLeBytes]

lemma exact_byte : Exact Always (fun v => [v]) (Parser.byte short) := by
  refine exact_fixed short (fun _ => rfl) (fun _ => rfl) ?_
  rintro ⟨_, hbs⟩
  obtain ⟨b, rfl⟩ := length_eq_one_iff.mp hbs
  rfl

lemma exact_word16 : Exact Always (fun v : UInt16 => leBytes 2 v.toNat) (Parser.word16 short) :=
  exact_word short (fun v => v.toNat_lt) (fun _ => UInt16.ofNat_toNat)
    (fun _ h => UInt16.toNat_ofNat_of_lt' h)

lemma exact_word32 : Exact Always (fun v : UInt32 => leBytes 4 v.toNat) (Parser.word32 short) :=
  exact_word short (fun v => v.toNat_lt) (fun _ => UInt32.ofNat_toNat)
    (fun _ h => UInt32.toNat_ofNat_of_lt' h)

lemma exact_word64 : Exact Always (fun v : UInt64 => leBytes 8 v.toNat) (Parser.word64 short) :=
  exact_word short (fun v => v.toNat_lt) (fun _ => UInt64.ofNat_toNat)
    (fun _ h => UInt64.toNat_ofNat_of_lt' h)

lemma exact_flag (invalid : ε) :
    Exact Always (fun v => [if v then 1 else 0]) (Parser.flag short invalid) := by
  refine ((exact_byte short).andThen (fun v : Bool => if v then 1 else 0) fun tag => ?_).of_enc
    fun _ => rfl
  split
  · exact .of_pure fun v => by cases v <;> simp
  · exact .of_pure fun v => by cases v <;> simp
  · exact .of_throw fun v => by cases v <;> simp_all [eq_comm]

lemma exact_counted :
    Exact Always (fun v => leBytes 8 (UInt64.ofNat v.val.length).toNat ++ v.val)
      (Parser.counted short) := by
  intro input v rest
  simp only [Parser.counted, (exact_word64 short).bind_ok, (exact_take short _).bind_ok]
  constructor
  · rintro ⟨n, -, _, rfl, ⟨_, hbs⟩, -, _, rfl, hp⟩
    obtain ⟨rfl, rfl⟩ := Parser.pure_ok.mp hp
    exact ⟨trivial, by simp [hbs]⟩
  · rintro ⟨-, rfl⟩
    have hn : (UInt64.ofNat v.val.length).toNat = v.val.length :=
      UInt64.toNat_ofNat_of_lt' v.property
    refine ⟨UInt64.ofNat v.val.length, trivial, v.val ++ rest, by simp, ?_⟩
    exact ⟨⟨v.val, hn.symm⟩, trivial, rest, rfl, Parser.pure_ok.mpr ⟨rfl, rfl⟩⟩

end Words

end Lint4d.Lib
