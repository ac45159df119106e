import SoftRadio.Time.Spec

/-!
Commands that start and stop a receive stream, and what accompanies the
samples of one transfer.
-/

namespace SoftRadio

inductive StreamMode where
  | startContinuous
  | stopContinuous
  /-- A number of samples, after which the burst has ended. -/
  | samplesAndDone
  /-- A number of samples, after which more may follow. -/
  | samplesAndMore
  deriving DecidableEq, Repr, Inhabited

namespace StreamMode

/-- The number that callers use: the code of a letter. -/
def raw : StreamMode → Int
  | startContinuous => 97
  | stopContinuous => 111
  | samplesAndDone => 100
  | samplesAndMore => 109

def ofRaw (n : Int) : Except Fault StreamMode :=
  if n = 97 then .ok startContinuous
  else if n = 111 then .ok stopContinuous
  else if n = 100 then .ok samplesAndDone
  else if n = 109 then .ok samplesAndMore
  else refuse (.badStreamMode n)

end StreamMode

structure StreamCommand (α : Type) where
  mode : StreamMode
  count : Nat
  immediate : Bool
  time : TimeSpec α
  deriving Repr

/-- Why a transfer delivered nothing. -/
inductive RxError where
  | none
  | timeout
  | lateCommand
  | brokenChain
  | overflow
  | alignment
  | badPacket
  deriving DecidableEq, Repr, Inhabited

def RxError.code : RxError → Nat
  | none => 0
  | timeout => 1
  | lateCommand => 2
  | brokenChain => 4
  | overflow => 8
  | alignment => 12
  | badPacket => 15

structure RxMetadata (α : Type) where
  hasTime : Bool
  time : TimeSpec α
  moreFragments : Bool
  fragmentOffset : Nat
  startOfBurst : Bool
  endOfBurst : Bool
  outOfSequence : Bool
  error : RxError
  deriving Repr

def RxMetadata.blank {α : Type} [Scalar α] : RxMetadata α :=
  ⟨false, TimeSpec.zero, false, 0, false, false, false, .none⟩

structure TxMetadata (α : Type) where
  hasTime : Bool
  time : TimeSpec α
  startOfBurst : Bool
  endOfBurst : Bool
  deriving Repr

/-- What is reported of a transmission afterwards. -/
inductive AsyncEvent where
  | burstAck
  | underflow
  | sequenceError
  | timeError
  | underflowInPacket
  | sequenceErrorInBurst
  | userPayload
  deriving DecidableEq, Repr, Inhabited

def AsyncEvent.code : AsyncEvent → Nat
  | burstAck => 1
  | underflow => 2
  | sequenceError => 4
  | timeError => 8
  | underflowInPacket => 16
  | sequenceErrorInBurst => 32
  | userPayload => 64

structure AsyncMetadata (α : Type) where
  channel : Nat
  hasTime : Bool
  time : TimeSpec α
  event : AsyncEvent
  deriving Repr

def AsyncMetadata.blank {α : Type} [Scalar α] : AsyncMetadata α :=
  ⟨0, false, TimeSpec.zero, .burstAck⟩

/-- The longest time, in seconds, that a call waits. -/
def longestWait : Int := 86400

/-- A caller's timeout as a time to wait: at most a day, and none at all
for what is negative or no number. -/
def boundedWait {α : Type} [Scalar α] (timeout : α) : α :=
  if Scalar.lt (Scalar.ofInt 0) timeout then Scalar.min timeout (Scalar.ofInt longestWait)
  else Scalar.ofInt 0

end SoftRadio
