import AssetUnpack.Stream.Reader

/-!
# Decoders

A decoder turns packed bytes into others. Whoever wants bytes asks it for them, and before it gives
any it may want packed ones first, as often as it likes; where those come from is not its business.

So that every request is answered in the end, a decoder must not want packed bytes for ever where
there are none left: `patience` falls with every time that it is handed none.
-/

namespace AssetUnpack

/-- What a decoder with states `δ` does when it is asked for bytes. -/
inductive DecoderStep (δ : Type)
  /-- Gives bytes. Where there is room for some, none mean that there are no more. -/
  | gives (piece : Bytes) (next : δ)
  | fails (e : IoError) (next : δ)
  /-- Wants packed bytes first, one and up to `more` others. It is handed none only if there are
  none left. -/
  | wants (more : Nat) (next : Bytes → δ)

/-- A decoder with states `δ`. -/
structure Decoder (δ : Type) where
  start : δ
  step : δ → (room : Nat) → DecoderStep δ
  gives_le : ∀ s room piece next, step s room = .gives piece next → piece.length ≤ room
  /-- How often the decoder may still want packed bytes where there are none left. -/
  patience : δ → Nat
  patience_lt : ∀ s room more next, step s room = .wants more next →
    patience (next []) < patience s

end AssetUnpack
