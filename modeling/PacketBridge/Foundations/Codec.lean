import PacketBridge.Foundations.BigEndian
import Mathlib.Data.List.TakeDrop

/-! Codecs: a writer and a reader of byte strings that undo each other, and readers that take one
encoding off the front of a stream. -/
namespace Foundations

/-- `decode` gives back each value of `dom` from its encoding, and accepts nothing but those
encodings. -/
structure ExactCodec {α : Type} (dom : α → Prop) (encode : α → Bytes)
    (decode : Bytes → Option α) : Prop where
  decode_encode : ∀ a, dom a → decode (encode a) = some a
  accepted : ∀ bs a, decode bs = some a → dom a ∧ encode a = bs

namespace ExactCodec

variable {α : Type} {dom : α → Prop} {encode : α → Bytes} {decode : Bytes → Option α}

/-- Two accepted byte strings are never read as the same value. -/
theorem accepted_injective (h : ExactCodec dom encode decode) {bs bs' : Bytes} {a : α}
    (ha : decode bs = some a) (ha' : decode bs' = some a) : bs = bs' := by
  rw [← (h.accepted bs a ha).2, ← (h.accepted bs' a ha').2]

end ExactCodec

/-- A reader of a stream: it takes an encoding off the front, and what it takes is one that the
decoder accepts. The second component of its answer is the number of bytes it takes. -/
structure TakesEncoding {α : Type} (dom : α → Prop) (encode : α → Bytes)
    (decode : Bytes → Option α) (parse : Bytes → Option α × ℕ) : Prop
    extends ExactCodec dom encode decode where
  takes : ∀ a rest, dom a → parse (encode a ++ rest) = (some a, (encode a).length)
  decodes : ∀ bs a, (parse bs).1 = some a → decode (bs.take (parse bs).2) = some a

namespace TakesEncoding

variable {α : Type} {dom : α → Prop} {encode : α → Bytes} {decode : Bytes → Option α}
  {parse : Bytes → Option α × ℕ}

/-- The reader takes an accepted front whole, whatever follows it. -/
theorem parse_append (h : TakesEncoding dom encode decode parse) {front : Bytes} {a : α}
    (ha : decode front = some a) (rest : Bytes) :
    parse (front ++ rest) = (some a, front.length) := by
  obtain ⟨hdom, rfl⟩ := h.accepted front a ha
  exact h.takes a rest hdom

/-- The reader finds a value exactly when the decoder accepts a front of the stream. -/
theorem parse_eq_some_iff (h : TakesEncoding dom encode decode parse) (bs : Bytes) (a : α) :
    (parse bs).1 = some a ↔ ∃ front, front <+: bs ∧ decode front = some a := by
  constructor
  · intro ha
    exact ⟨_, List.take_prefix _ _, h.decodes bs a ha⟩
  · rintro ⟨front, ⟨rest, rfl⟩, ha⟩
    rw [h.parse_append ha rest]

end TakesEncoding

end Foundations
