import Mathlib.Data.Nat.Notation
import ProjektCore.Foundation.Panic

/-!
# The error values of the repository

Go compares errors by identity. Every package-level error variable that a modelled function
returns or compares is a constructor of its own; an error created in place keeps its text, and
an error of a foreign package (a connection, a file, a Protobuf decoder) is `foreign`.
-/

namespace ProjektCore

open Foundation

/-- The error values, grouped by the package that declares them. -/
inductive Err where

  | ambiguousAtAndKey | missingTriggerState | ambiguousTransitions
  | badTransitionKey | badTransitionState
  | illegalStateMutation | multipleStateMutations | unexpectedMutatedState | nonTriggeringState
  | okWithTo | okWithoutDo | emptyTransition | okWithoutMutation | newStateWithError

  | nothingToWrite | unexpectedMessage

  | illegalRootMessageType | noMessageContent | unexpectedMessageType | expectedDataMessage | payloadTooLarge
  | sessionClosed | channelClosed

  | duplicateBlockReceived | redoForUnwrittenBlock | redoForReceivedBlock
  | duplicateRedoBlock | invalidDataReceived

  | invalidIndex | indexNotYetRead
  | badBlockData | writerBoundsExceeded | alreadyWritten | badBlockChecksum

  | alreadyConnected | alreadyRequested | targetUnavailable | sessionExists | unknownSession
  | sessionAlreadyAccepted | initiatorUnavailable

  | connectionRefused

  | eof | unexpectedEOF | closed | contextDone
  | new (text : String)
  | wrap (text : String) (err : Err)
  | foreign (code : ℕ)
deriving Repr, DecidableEq

/-- Whether an error is the target or wraps it. -/
def Err.is (target : Err) : Err → Bool
  | .wrap text err => .wrap text err = target || Err.is target err
  | err => err = target

/-- The error of an encoded message that is malformed. -/
def malformed : Err := .foreign 2

/-- The error of a message with a text that is not UTF-8. -/
def invalidUtf8 : Err := .foreign 3

/-- A call of the repository's code. -/
abbrev Go (A : Type) := Call Err A

/-- Panicking with an error value. -/
def panicError {A : Type} (e : Err) : Go A := .error (.error e)

/-- Panicking with a text. -/
def panicText {A : Type} (text : String) : Go A := .error (.text text)

/-- A failed run-time check of the language: an index or a slice bound out of range, a nil
pointer. -/
def panicRuntime {A : Type} (text : String) : Go A := .error (.runtime text)

end ProjektCore
