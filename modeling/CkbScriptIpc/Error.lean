import CkbScriptIpc.Io

/-!
# Errors

`IpcError`, the protocol error codes that travel in a response, and the three
conversions between them.
-/

namespace CkbScriptIpc

open Interaction

/-- The errors of the system calls; `unknown` stands for the ones that the
conversion below does not name. -/
inductive SysError where
  | indexOutOfBound
  | itemMissing
  | lengthNotEnough (len : UInt64)
  | encoding
  | waitFailure
  | invalidFd
  | otherEndClosed
  | maxVmsSpawned
  | maxFdsCreated
  | unknown (code : UInt64)
  deriving DecidableEq, Repr

inductive ProtocolErrorCode where
  | ok
  | indexOutOfBound
  | itemMissing
  | lengthNotEnough
  | invalidData
  | waitFailure
  | invalidFd
  | otherEndClosed
  | maxVmsSpawned
  | maxFdsCreated
  | unknownError
  | unknownSysError
  | unexpectedEof
  | incompleteVlqSeq
  | decodeVlqOverflow
  | readVlqError
  | serializeError
  | deserializeError
  | generalIoError
  | endOfError
  deriving DecidableEq, Repr

inductive IpcError where
  | ckbSysError (e : SysError)
  | unexpectedEof
  | incompleteVlqSeq
  | decodeVlqOverflow
  | readVlqError
  | serializeError
  | deserializeError
  | sliceWriteError
  | readUntilError
  | readExactError
  | bufReaderError
  | generalIoError
  | protocolError (e : ProtocolErrorCode)
  deriving DecidableEq, Repr

/-- `From<io::Error>`. -/
def IpcError.ofIo (_ : ErrorKind) : IpcError := .generalIoError

namespace ProtocolErrorCode

/-- The discriminant: `as u64`. -/
def toU64 : ProtocolErrorCode → UInt64
  | .ok => 0
  | .indexOutOfBound => 1
  | .itemMissing => 2
  | .lengthNotEnough => 3
  | .invalidData => 4
  | .waitFailure => 5
  | .invalidFd => 6
  | .otherEndClosed => 7
  | .maxVmsSpawned => 8
  | .maxFdsCreated => 9
  | .unknownError => 20
  | .unknownSysError => 21
  | .unexpectedEof => 22
  | .incompleteVlqSeq => 23
  | .decodeVlqOverflow => 24
  | .readVlqError => 25
  | .serializeError => 26
  | .deserializeError => 27
  | .generalIoError => 28
  | .endOfError => 29

def variants : List ProtocolErrorCode :=
  [.ok, .indexOutOfBound, .itemMissing, .lengthNotEnough, .invalidData, .waitFailure, .invalidFd,
    .otherEndClosed, .maxVmsSpawned, .maxFdsCreated, .unknownError, .unknownSysError,
    .unexpectedEof, .incompleteVlqSeq, .decodeVlqOverflow, .readVlqError, .serializeError,
    .deserializeError, .generalIoError, .endOfError]

/-- The derived `n`: the variant with this discriminant. -/
def n (e : UInt64) : Option ProtocolErrorCode := variants.find? fun c => c.toU64 == e

/-- `From<IpcError>`. -/
def ofIpcError : IpcError → ProtocolErrorCode
  | .ckbSysError err => match err with
    | .indexOutOfBound => .indexOutOfBound
    | .itemMissing => .itemMissing
    | .lengthNotEnough _ => .lengthNotEnough
    | .encoding => .invalidData
    | .waitFailure => .waitFailure
    | .invalidFd => .invalidFd
    | .otherEndClosed => .otherEndClosed
    | .maxVmsSpawned => .maxVmsSpawned
    | .maxFdsCreated => .maxFdsCreated
    | .unknown _ => .unknownSysError
  | .unexpectedEof => .unexpectedEof
  | .incompleteVlqSeq => .incompleteVlqSeq
  | .decodeVlqOverflow => .decodeVlqOverflow
  | .readVlqError => .readVlqError
  | .serializeError => .serializeError
  | .deserializeError => .deserializeError
  | .sliceWriteError | .bufReaderError | .readUntilError | .readExactError => .generalIoError
  | .generalIoError => .generalIoError
  | .protocolError e => e

/-- `From<u64>`: the unwrap of `n`. -/
def ofU64 {Op : Type} {Res : Op → Type} (e : UInt64) : Prog Res ProtocolErrorCode :=
  Prog.unwrap (n e)

/-- Every code comes back from its discriminant. -/
theorem n_toU64 (c : ProtocolErrorCode) : n c.toU64 = some c := by cases c <;> decide

theorem toU64_of_n {e : UInt64} {c : ProtocolErrorCode} (h : n e = some c) : c.toU64 = e := by
  simpa using List.find?_some h

theorem toU64_eq_zero {c : ProtocolErrorCode} : c.toU64 = 0 ↔ c = .ok := by
  cases c <;> decide

/-- The discriminants leave gaps: 10 to 19, and everything from 30 on. -/
theorem toU64_range (c : ProtocolErrorCode) :
    c.toU64.toNat ≤ 9 ∨ 20 ≤ c.toU64.toNat ∧ c.toU64.toNat ≤ 29 := by
  cases c <;> decide

/-- `n` is defined on the discriminants and nowhere else. -/
theorem n_isSome (e : UInt64) :
    (n e).isSome ↔ e.toNat ≤ 9 ∨ 20 ≤ e.toNat ∧ e.toNat ≤ 29 := by
  constructor
  · intro h
    obtain ⟨c, hc⟩ := Option.isSome_iff_exists.mp h
    rw [← toU64_of_n hc]
    exact toU64_range c
  · intro h
    have hsmall : ∀ k : Fin 30, k.1 ≤ 9 ∨ 20 ≤ k.1 → (n (UInt64.ofNat k.1)).isSome := by decide
    have he : UInt64.ofNat e.toNat = e := UInt64.ofNat_toNat
    have hk := hsmall ⟨e.toNat, by omega⟩ (by simp only; omega)
    rwa [he] at hk

/-- Only a success code that an error carries becomes the success code. -/
theorem ofIpcError_eq_ok {e : IpcError} : ofIpcError e = .ok ↔ e = .protocolError .ok := by
  cases e with
  | ckbSysError e => cases e <;> simp [ofIpcError]
  | protocolError c => simp [ofIpcError]
  | _ => simp [ofIpcError]

end ProtocolErrorCode

end CkbScriptIpc
