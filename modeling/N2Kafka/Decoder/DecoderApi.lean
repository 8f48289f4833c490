import Mathlib.Data.Nat.Notation

namespace N2Kafka.Decoder.DecoderApi

inductive DecoderCallbackErr
  | ok | bufferFull | invalidRequest | unknownTopic | unknownPartition | msgTooLarge
  | httpMethodNotAllowed | resourceNotFound | memoryError | genericError
  deriving DecidableEq

/-- The members of `n2k_decoder` a listener looks at. A decoder opens sessions exactly if it closes
them. -/
structure N2kDecoder where
  newSession : Bool
  deleteSession : Bool
  sessionSize : Option ℕ
  paired : newSession = deleteSession
  deriving DecidableEq

def dumbDecoder : N2kDecoder := ⟨false, false, none, rfl⟩

def zzDecoder (sessionSize : ℕ) : N2kDecoder := ⟨true, true, some sessionSize, rfl⟩

def merakiDecoder (sessionSize : ℕ) : N2kDecoder := ⟨true, true, some sessionSize, rfl⟩

end N2Kafka.Decoder.DecoderApi
