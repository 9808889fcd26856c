import ObjectStream.Decoder

/-!
Orders among equal keys.

Keys of a table differ when they are put in. An instance that is a key may change afterwards, and then
a look-up may meet several keys that it accepts. Which of them it meets first is up to the order that
the tables keep to, and what a stream is read to may depend on it. A load is settled if it does not
(`Settled`).
-/

namespace ObjectStream.Decoder

variable {H : Type}

/-- Reads one stream as `load` does, where look-ups go through keys with one image in this order. -/
abbrev loadBy [host : HostObject H] (probing : Probing) (cfg : Config H) : Decode H Value :=
  @load H (host.on probing) cfg

/-- The load comes to the same, in whatever order look-ups go through keys with one image. -/
def Settled [HostObject H] (cfg : Config H) (st : State H) : Prop :=
  ∀ probing : Probing, loadBy probing cfg st = load cfg st

end ObjectStream.Decoder
