import Mathlib.Logic.Function.Basic

/-!
# Codecs that may accept more than they write

A codec is a partial encoder with a partial decoder; nothing ties them together. What a round
trip can check of them comes in two strengths. A codec is `Canonical` if it accepts only what
it writes itself; it is `Idempotent` if what it accepts is stable once it has been rewritten.

Values without an encoding of their own are written as others, such as a set as a list of its
members. `via` is the codec for them, where reading may reject a representation, or take
several for the same value.

## Key results

- `Canonical.idempotent`: the first implies the second
- `Faithful.via_stable_iff`: which values survive such a representation
- `Faithful.via_idempotent`: it is idempotent if what is read has been read for good
-/

/-- `none` is an error, of the encoder or the decoder. -/
structure Codec (B α : Type) where
  encode : α → Option B
  decode : B → Option α

namespace Codec

variable {B α β : Type} (C : Codec B α)

/-- The value survives: it encodes, to something that decodes and encodes alike again. -/
def Stable (a : α) : Prop :=
  ∃ bytes b, C.encode a = some bytes ∧ C.decode bytes = some b ∧ C.encode b = some bytes

/-- Only one encoding of a value is accepted, the one that is written. -/
def Canonical : Prop := ∀ bytes a, C.decode bytes = some a → C.encode a = some bytes

/-- Every accepted value is stable. -/
def Idempotent : Prop := ∀ bytes a, C.decode bytes = some a → C.Stable a

/-- What is written is read back. -/
def Faithful : Prop := ∀ a bytes, C.encode a = some bytes → C.decode bytes = some a

variable {C}

theorem Canonical.idempotent (h : C.Canonical) : C.Idempotent := fun bytes a hdecode =>
  ⟨bytes, a, h bytes a hdecode, hdecode, h bytes a hdecode⟩

/-- Two values do not share an encoding. -/
theorem Faithful.encode_inj (h : C.Faithful) {a b : α} {bytes : B} (ha : C.encode a = some bytes)
    (hb : C.encode b = some bytes) : a = b :=
  Option.some.inj ((h a bytes ha).symm.trans (h b bytes hb))

/-! ## Values that are written as others -/

variable (C) in
/-- Values `b` that are written as `repr b` and read through `abs`. -/
def via (repr : β → α) (abs : α → Option β) : Codec B β where
  encode b := C.encode (repr b)
  decode bytes := (C.decode bytes).bind abs

variable {repr : β → α} {abs : α → Option β}

@[simp] theorem encode_via (b : β) : (C.via repr abs).encode b = C.encode (repr b) := rfl

@[simp] theorem decode_via (bytes : B) :
    (C.via repr abs).decode bytes = (C.decode bytes).bind abs := rfl

/-- A value survives if it can be written, and reading does not reject what is written or take
    it for something else. -/
theorem Faithful.via_stable_iff (h : C.Faithful) (hrepr : repr.Injective) {b : β} :
    (C.via repr abs).Stable b ↔ (C.encode (repr b)).isSome ∧ abs (repr b) = some b := by
  constructor
  · intro ⟨bytes, b', hencode, hdecode, hagain⟩
    -- both values are written alike, so they are one
    obtain rfl := hrepr (h.encode_inj hencode hagain)
    rw [decode_via, h _ _ hencode, Option.bind_some] at hdecode
    exact ⟨Option.isSome_iff_exists.mpr ⟨bytes, hencode⟩, hdecode⟩
  · intro ⟨hsome, habs⟩
    obtain ⟨bytes, hencode⟩ := Option.isSome_iff_exists.mp hsome
    refine ⟨bytes, b, hencode, ?_, hencode⟩
    rw [decode_via, h _ _ hencode, Option.bind_some, habs]

/-- Such a codec is idempotent if whatever value it reads can be written, and is read again. -/
theorem Faithful.via_idempotent (h : C.Faithful) (hrepr : repr.Injective)
    (hread : ∀ bytes a b, C.decode bytes = some a → abs a = some b →
      (C.encode (repr b)).isSome ∧ abs (repr b) = some b) : (C.via repr abs).Idempotent := by
  intro bytes b hdecode
  obtain ⟨a, ha, hb⟩ := Option.bind_eq_some_iff.mp hdecode
  exact (h.via_stable_iff hrepr).mpr (hread bytes a b ha hb)

end Codec
