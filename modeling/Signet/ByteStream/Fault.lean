/-!
What goes wrong while bytes stream from a source to a sink.
-/

namespace Signet.ByteStream

/-- A failure of a stream. -/
inductive Fault where
  /-- The sink takes no more bytes. -/
  | sinkFull
  /-- The source cannot be read on. -/
  | readFailed
  /-- The sink cannot be flushed. -/
  | flushFailed
  /-- No key stream is left to seal more bytes with. -/
  | sealExhausted
  /-- No key stream is left to open more bytes with. -/
  | openExhausted
  deriving DecidableEq, Repr

/-- What is said about a failure. -/
def Fault.message : Fault → String
  | .sinkFull => "Error \x7b kind: WriteZero, message: \"failed to write whole buffer\" \x7d"
  | .readFailed => "Custom \x7b kind: Other, error: \"read failed\" \x7d"
  | .flushFailed => "Custom \x7b kind: Other, error: \"flush failed\" \x7d"
  | .sealExhausted => "Custom \x7b kind: Other, error: CryptoSealFailed \x7d"
  | .openExhausted => "Custom \x7b kind: Other, error: CryptoOpenFailed \x7d"

end Signet.ByteStream
