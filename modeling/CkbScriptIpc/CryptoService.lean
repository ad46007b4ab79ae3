import CkbScriptIpc.Remote
import CkbScriptIpc.Recovery

/-!
# The crypto service over the channel

The trait `CkbCrypto` with what the macro makes of it, and the whole of `CryptoServer`. A client
may think of an `ideal` service, which keeps nothing but the history of the contexts.

* `handle_allowed`: the server does what the ideal one allows;
* `crypto_end_to_end`: what holds of a client of the ideal service holds of it at the other end of
  the pipes.
-/

namespace CkbScriptIpc

open Interaction

variable {α : Type}

/-! ## Signatures -/

/-- What the service uses of a signature scheme. A call of the library gives its `Result`, or
panics, which is `none`. -/
structure SignatureLibrary where
  Signature : Type
  VerifyingKey : Type
  signatureFromSlice : Bytes → Option (Option Signature)
  keyFromBytes : Bytes → Option (Option VerifyingKey)
  verify : VerifyingKey → Bytes → Signature → Option Bool

/-- Decode the signature, then the key, and verify; `none` is a panic of the library. -/
def SignatureLibrary.check (S : SignatureLibrary) (publicKey prehash signature : Bytes) :
    Option (Except CryptoError Unit) :=
  (S.signatureFromSlice signature).bind fun
    | none => some (.error .invalidSig)
    | some signature => (S.keyFromBytes publicKey).bind fun
      | none => some (.error .invalidPubkey)
      | some key => (S.verify key prehash signature).map fun verified =>
        if verified then .ok () else .error .verifyFailed

/-- The libraries of the service: hashes, the curve of `secp256k1_recovery`, and the schemes of
`k256::ecdsa`, `k256::schnorr` and `ed25519_dalek`. -/
structure CryptoLibraries where
  hash : HashLibraries
  k256 : K256
  ecdsa : SignatureLibrary
  schnorr : SignatureLibrary
  ed25519 : SignatureLibrary

/-! ## The service -/

/-- The request enum of `CkbCrypto`. -/
inductive CkbCryptoRequest where
  | hasherNew (hashType : HasherType)
  | hasherUpdate (ctx : HasherCtx) (data : Bytes)
  | hasherFinalize (ctx : HasherCtx)
  | secp256k1Recovery (prehash signature : Bytes) (recoveryId : UInt8)
  | secp256k1Verify (publicKey prehash signature : Bytes)
  | schnorrVerify (publicKey prehash signature : Bytes)
  | ed25519Verify (publicKey prehash signature : Bytes)
  deriving DecidableEq

/-- The response enum of `CkbCrypto`. -/
inductive CkbCryptoResponse where
  | hasherNew (ctx : HasherCtx)
  | hasherUpdate (ret : Except CryptoError Unit)
  | hasherFinalize (ret : Except CryptoError Bytes)
  | secp256k1Recovery (ret : Except CryptoError Bytes)
  | secp256k1Verify (ret : Except CryptoError Unit)
  | schnorrVerify (ret : Except CryptoError Unit)
  | ed25519Verify (ret : Except CryptoError Unit)
  deriving DecidableEq

namespace CryptoServer

variable (L : CryptoLibraries)

def secp256k1Verify := L.ecdsa.check

def schnorrVerify := L.schnorr.check

/-- The public key is an array of 32 bytes. -/
def ed25519Verify := SignatureLibrary.check
  { L.ed25519 with
    keyFromBytes := fun bytes =>
      if bytes.length = 32 then L.ed25519.keyFromBytes bytes else some none }

/-- The method that a request calls, and its response; `none` is a panic of the method. -/
def handle (s : CryptoServer L.hash) :
    CkbCryptoRequest → Option (CkbCryptoResponse × CryptoServer L.hash)
  | .hasherNew hashType => (s.hasherNew hashType).map fun r => (.hasherNew r.1, r.2)
  | .hasherUpdate ctx data => (s.hasherUpdate ctx data).map fun r => (.hasherUpdate r.1, r.2)
  | .hasherFinalize ctx => (s.hasherFinalize ctx).map fun r => (.hasherFinalize r.1, r.2)
  | .secp256k1Recovery prehash signature recoveryId =>
    (L.k256.secp256k1Recovery prehash signature recoveryId).map fun ret =>
      (.secp256k1Recovery ret, s)
  | .secp256k1Verify publicKey prehash signature =>
    (secp256k1Verify L publicKey prehash signature).map fun ret => (.secp256k1Verify ret, s)
  | .schnorrVerify publicKey prehash signature =>
    (schnorrVerify L publicKey prehash signature).map fun ret => (.schnorrVerify ret, s)
  | .ed25519Verify publicKey prehash signature =>
    (ed25519Verify L publicKey prehash signature).map fun ret => (.ed25519Verify ret, s)

/-- `Serve::serve` of the generated server. There is no answer of a method that panics; an error
stands for it. -/
def answer (s : CryptoServer L.hash) (req : CkbCryptoRequest) :
    Except IpcError CkbCryptoResponse × CryptoServer L.hash :=
  match s.handle L req with
  | some (resp, s) => (.ok resp, s)
  | none => (.error .generalIoError, s)

theorem answer_told (s : CryptoServer L.hash) (req : CkbCryptoRequest) :
    (s.answer L req).1 ≠ .error (.protocolError .ok) := by
  rw [answer]
  split <;> nofun

end CryptoServer

/-! ## The client -/

section

variable [Allocator]

/-- The programs of the clients of `CkbCrypto`. -/
abbrev CryptoClient (α : Type) := Prog (AskRes CkbCryptoRequest CkbCryptoResponse) α

namespace CkbCryptoClient

variable {β : Type}

/-- A stub of the generated client. It panics when the call fails, and when the response is that of
another method. -/
def stub (req : CkbCryptoRequest) (ret : CkbCryptoResponse → Option β) : CryptoClient β :=
  .call (.call req) fun
    | .ok (.value resp) => Prog.unwrap (ret resp)
    | _ => .panic

def hasherNew (hashType : HasherType) : CryptoClient HasherCtx :=
  stub (.hasherNew hashType) fun
    | .hasherNew ret => some ret
    | _ => none

def hasherUpdate (ctx : HasherCtx) (data : Bytes) : CryptoClient (Except CryptoError Unit) :=
  stub (.hasherUpdate ctx data) fun
    | .hasherUpdate ret => some ret
    | _ => none

def hasherFinalize (ctx : HasherCtx) : CryptoClient (Except CryptoError Bytes) :=
  stub (.hasherFinalize ctx) fun
    | .hasherFinalize ret => some ret
    | _ => none

def secp256k1Recovery (prehash signature : Bytes) (recoveryId : UInt8) :
    CryptoClient (Except CryptoError Bytes) :=
  stub (.secp256k1Recovery prehash signature recoveryId) fun
    | .secp256k1Recovery ret => some ret
    | _ => none

def secp256k1Verify (publicKey prehash signature : Bytes) :
    CryptoClient (Except CryptoError Unit) :=
  stub (.secp256k1Verify publicKey prehash signature) fun
    | .secp256k1Verify ret => some ret
    | _ => none

def schnorrVerify (publicKey prehash signature : Bytes) : CryptoClient (Except CryptoError Unit) :=
  stub (.schnorrVerify publicKey prehash signature) fun
    | .schnorrVerify ret => some ret
    | _ => none

def ed25519Verify (publicKey prehash signature : Bytes) : CryptoClient (Except CryptoError Unit) :=
  stub (.ed25519Verify publicKey prehash signature) fun
    | .ed25519Verify ret => some ret
    | _ => none

end CkbCryptoClient

end

/-! ## The ideal service -/

/-- What a service may do that knows the history of the contexts and nothing else: contexts are
numbered, a live one takes data and gives the digest of what it has taken, and any other is
refused. -/
inductive Allowed (L : CryptoLibraries) (log : HasherLog) :
    CkbCryptoRequest → CkbCryptoResponse → HasherLog → Prop
  | created {t : HasherType} {ctx : HasherCtx} : ctx.val.toNat = log.issued.length →
      Allowed L log (.hasherNew t) (.hasherNew ctx) (log ++ [.new t ctx])
  | updated {ctx : HasherCtx} {t : HasherType} {data : Bytes} : log.Live ctx t →
      Allowed L log (.hasherUpdate ctx data) (.hasherUpdate (.ok ()))
        (log ++ [.update ctx data (.ok ())])
  | finalized {ctx : HasherCtx} {t : HasherType} : log.Live ctx t →
      Allowed L log (.hasherFinalize ctx)
        (.hasherFinalize (.ok (L.hash.digest t (log.absorbed ctx))))
        (log ++ [.finalize ctx (.ok (L.hash.digest t (log.absorbed ctx)))])
  | updateRefused {ctx : HasherCtx} {data : Bytes} : (∀ t, ¬ log.Live ctx t) →
      Allowed L log (.hasherUpdate ctx data) (.hasherUpdate (.error .invalidContext)) log
  | finalizeRefused {ctx : HasherCtx} : (∀ t, ¬ log.Live ctx t) →
      Allowed L log (.hasherFinalize ctx) (.hasherFinalize (.error .invalidContext)) log
  | recovered {prehash signature : Bytes} {recoveryId : UInt8} {ret : Except CryptoError Bytes} :
      L.k256.secp256k1Recovery prehash signature recoveryId = some ret →
      Allowed L log (.secp256k1Recovery prehash signature recoveryId) (.secp256k1Recovery ret) log
  | secp256k1Verified {publicKey prehash signature : Bytes} {ret : Except CryptoError Unit} :
      L.ecdsa.check publicKey prehash signature = some ret →
      Allowed L log (.secp256k1Verify publicKey prehash signature) (.secp256k1Verify ret) log
  | schnorrVerified {publicKey prehash signature : Bytes} {ret : Except CryptoError Unit} :
      L.schnorr.check publicKey prehash signature = some ret →
      Allowed L log (.schnorrVerify publicKey prehash signature) (.schnorrVerify ret) log
  | ed25519Verified {publicKey prehash signature : Bytes} {ret : Except CryptoError Unit} :
      CryptoServer.ed25519Verify L publicKey prehash signature = some ret →
      Allowed L log (.ed25519Verify publicKey prehash signature) (.ed25519Verify ret) log

/-- The signature libraries do not panic on what a request hands them. -/
def CryptoLibraries.Returns (L : CryptoLibraries) : CkbCryptoRequest → Prop
  | .secp256k1Verify publicKey prehash signature =>
    ∃ ret, CryptoServer.secp256k1Verify L publicKey prehash signature = some ret
  | .schnorrVerify publicKey prehash signature =>
    ∃ ret, CryptoServer.schnorrVerify L publicKey prehash signature = some ret
  | .ed25519Verify publicKey prehash signature =>
    ∃ ret, CryptoServer.ed25519Verify L publicKey prehash signature = some ret
  | _ => True

/-- Every `unwrap` stands behind its check, whatever the curve. -/
theorem secp256k1Recovery_returns (K : K256) (prehash signature : Bytes) (recoveryId : UInt8) :
    ∃ ret, K.secp256k1Recovery prehash signature recoveryId = some ret := by
  rw [K256.secp256k1Recovery]
  cases K.signatureFromSlice signature with
  | none => exact ⟨_, rfl⟩
  | some scalars =>
    cases K.bits2field prehash with
    | none => exact ⟨_, rfl⟩
    | some fieldBytes =>
      cases K.recoveryIdFromByte recoveryId with
      | none => exact ⟨_, rfl⟩
      | some id =>
        simp only [Option.isNone_some, Bool.false_eq_true, ↓reduceIte, Option.bind_some]
        cases K.rBytes scalars.1.1 id with
        | none => exact ⟨_, rfl⟩
        | some x =>
          simp only
          cases K.decompress x (K.isYOdd id) with
          | none => exact ⟨_, rfl⟩
          | some R =>
            simp only [Option.isNone_some, Bool.false_eq_true, ↓reduceIte, Option.bind_some]
            split <;> exact ⟨_, rfl⟩

/-- The server holds what the history says, and does what it allows. -/
theorem handle_allowed {L : CryptoLibraries} (hL : L.hash.Stream) {log : HasherLog}
    {s : CryptoServer L.hash} (hs : Represents log s) {req : CkbCryptoRequest}
    (hreturns : L.Returns req)
    (hnew : ∀ t, req = .hasherNew t → log.issued.length + 1 < 2 ^ 64) :
    ∃ resp s' log', s.handle L req = some (resp, s') ∧ Allowed L log req resp log' ∧
      Represents log' s' := by
  cases req with
  | hasherNew t =>
    have h := hnew t rfl
    refine ⟨_, _, _, ?_, .created hs.count, hs.new hL h t⟩
    rw [CryptoServer.handle, hs.hasherNew_eq h]
    rfl
  | hasherUpdate ctx data =>
    by_cases hlive : ∃ t, log.Live ctx t
    · obtain ⟨t, ht⟩ := hlive
      refine ⟨_, _, _, ?_, .updated ht, hs.update ht data⟩
      rw [CryptoServer.handle, hs.hasherUpdate_live hL ht]
      rfl
    · refine ⟨_, s, log, ?_, .updateRefused (not_exists.mp hlive), hs⟩
      rw [CryptoServer.handle, ((hs.isolated hL).refused (not_exists.mp hlive)).1 data]
      rfl
  | hasherFinalize ctx =>
    by_cases hlive : ∃ t, log.Live ctx t
    · obtain ⟨t, ht⟩ := hlive
      refine ⟨_, _, _, ?_, .finalized ht, hs.finalize ht _⟩
      rw [CryptoServer.handle, hs.hasherFinalize_live ht]
      rfl
    · refine ⟨_, s, log, ?_, .finalizeRefused (not_exists.mp hlive), hs⟩
      rw [CryptoServer.handle, ((hs.isolated hL).refused (not_exists.mp hlive)).2]
      rfl
  | secp256k1Recovery prehash signature recoveryId =>
    obtain ⟨ret, hret⟩ := secp256k1Recovery_returns L.k256 prehash signature recoveryId
    refine ⟨_, s, log, ?_, .recovered hret, hs⟩
    rw [CryptoServer.handle, hret]
    rfl
  | secp256k1Verify _ _ _ =>
    obtain ⟨ret, hret⟩ := hreturns
    refine ⟨_, s, log, ?_, .secp256k1Verified hret, hs⟩
    rw [CryptoServer.handle, hret]
    rfl
  | schnorrVerify _ _ _ =>
    obtain ⟨ret, hret⟩ := hreturns
    refine ⟨_, s, log, ?_, .schnorrVerified hret, hs⟩
    rw [CryptoServer.handle, hret]
    rfl
  | ed25519Verify _ _ _ =>
    obtain ⟨ret, hret⟩ := hreturns
    refine ⟨_, s, log, ?_, .ed25519Verified hret, hs⟩
    rw [CryptoServer.handle, hret]
    rfl

/-- The history of the contexts, in what the server has been asked and has answered. -/
def history (asked : List (CkbCryptoRequest × Except IpcError CkbCryptoResponse)) : HasherLog :=
  asked.filterMap fun
    | (.hasherNew t, .ok (.hasherNew ctx)) => some (.new t ctx)
    | (.hasherUpdate ctx data, .ok (.hasherUpdate (.ok ()))) => some (.update ctx data (.ok ()))
    | (.hasherFinalize ctx, .ok (.hasherFinalize (.ok digest))) =>
      some (.finalize ctx (.ok digest))
    | _ => none

theorem history_allowed {L : CryptoLibraries} {log log' : HasherLog} {req : CkbCryptoRequest}
    {resp : CkbCryptoResponse}
    {asked : List (CkbCryptoRequest × Except IpcError CkbCryptoResponse)}
    (h : Allowed L log req resp log') (hasked : history asked = log) :
    history (asked ++ [(req, .ok resp)]) = log' := by
  rw [history, List.filterMap_append] at *
  rw [hasked]
  cases h with
  | created _ => rfl
  | updated _ => rfl
  | finalized _ => rfl
  | _ => exact List.append_nil log

section

variable [Allocator] [Serde CkbCryptoRequest] [Serde CkbCryptoResponse] {L : CryptoLibraries}

/-- Who calls the ideal service. The codec has to carry the request and what may come back, the
signature libraries have to return, and there are at most `2 ^ 64 - 1` contexts. -/
def ideal (L : CryptoLibraries) : Env (AskRes CkbCryptoRequest CkbCryptoResponse) HasherLog where
  pre log a := ∃ req, a = .call req ∧ RoundTrips req ∧ L.Returns req ∧
    (∀ t, req = .hasherNew t → log.issued.length + 1 < 2 ^ 64) ∧
    ∀ resp log', Allowed L log req resp log' → RoundTrips resp
  step log a result log' := ∃ req resp, a = .call req ∧ result = .ok (.value resp) ∧
    Allowed L log req resp log'

/-- The server stands for the ideal service: it holds what the history says, and no method has
panicked. -/
structure StandsFor (log : HasherLog)
    (w : Nearby CkbCryptoRequest CkbCryptoResponse (CryptoServer L.hash)) : Prop where
  represents : Represents log w.service
  opened : w.closed = false
  history : history w.log = log
  answered : ∀ x ∈ w.log, ∃ resp, x.2 = .ok resp

theorem ideal_simulates (hL : L.hash.Stream) :
    Simulates (ideal L) (nearby (CryptoServer.answer L) False) id (fun _ r => r) StandsFor where
  pre := by
    rintro log w a hw - hclosed
    cases hw.opened.symm.trans hclosed
  step := by
    rintro log w a r w' hw ⟨req, rfl, hreq, hreturns, hnew, hresp⟩ ⟨rfl, rfl⟩
    obtain ⟨resp, s', log', hhandle, hallowed, hs'⟩ :=
      handle_allowed hL hw.represents hreturns hnew
    have hanswer : w.service.answer L req = (.ok resp, s') := by
      rw [CryptoServer.answer, hhandle]
    have hask := Nearby.ask_travels hreq (hresp resp log' hallowed) hanswer hw.opened
    rw [id, hask]
    refine ⟨log', ⟨req, resp, rfl, rfl, hallowed⟩, hs', rfl,
      history_allowed hallowed hw.history, ?_⟩
    intro x hx
    rw [List.mem_append, List.mem_singleton] at hx
    rcases hx with hx | rfl
    · exact hw.answered x hx
    · exact ⟨resp, rfl⟩

/-- A client with pipes in between. -/
theorem crypto_paced (hL : L.hash.Stream) {p : CryptoClient α} {Q : α → HasherLog → Prop}
    (hp : Always (ideal L) (returns Q) p []) (k : Nat) :
    ∃ as : List (Ask CkbCryptoRequest),
      let xs := replies (CryptoServer.answer L) CryptoServer.new
        ((as.filterMap Ask.payload).map Ask.incoming)
      Always (paced (X := Unit) (Y := Unit)) (returns fun r events =>
          (Q r.1 (history (questions (xs.map sessionRound))) ∧ failure xs = none ∧
            ∀ x ∈ questions (xs.map sessionRound), ∃ resp, x.2 = .ok resp) ∧ events = [])
        (p.via Channel.ask (Channel.new k Source.mk Sink.mk))
        (clientEvents (xs.map sessionRound)) := by
  have hstart : StandsFor [] (⟨CryptoServer.new, [], false⟩ : Nearby _ _ (CryptoServer L.hash)) :=
    ⟨represents_new, rfl, rfl, nofun⟩
  have hnearby := always_simulates (ideal_simulates hL) hp hstart
  have hreturns : Always (nearby (CryptoServer.answer L) False)
      (returns fun a w => ∃ log, StandsFor log w ∧ Q a log) p ⟨CryptoServer.new, [], false⟩ := by
    refine hnearby.mono ?_
    rintro (a | _) w ⟨log, hw, hq⟩
    · exact ⟨log, hw, hq⟩
    · exact hq.elim
  obtain ⟨as, has⟩ := via_paced (CryptoServer.answer_told L) hreturns k
  refine ⟨as, has.mono (returns_mono ?_)⟩
  rintro r w ⟨⟨v, ⟨log, hv, hq⟩, hlog, hclosed⟩, rfl⟩
  rw [← hlog, hv.history]
  refine ⟨⟨hq, ?_, hv.answered⟩, rfl⟩
  by_contra hfailure
  cases hv.opened.symm.trans (hclosed.mpr hfailure)

/-- **The crypto service end to end.** Whatever holds of a client program that calls the ideal
service holds of it at the other end of the pipes of `CryptoServer`, in every interleaving, and no
method of the server panics. -/
theorem crypto_end_to_end (hL : L.hash.Stream) (p : CryptoClient α) (Q : α → HasherLog → Prop)
    (hp : Always (ideal L) (returns Q) p []) (k l : Nat) :
    ∃ as : List (Ask CkbCryptoRequest),
      let xs := replies (CryptoServer.answer L) CryptoServer.new
        ((as.filterMap Ask.payload).map Ask.incoming)
      Converses (CryptoServer.answer L)
        (p.via Channel.ask (Channel.new k Source.mk Sink.mk) : Prog (IoRes Unit Unit) _)
        (Channel.execute served (Channel.new l Source.mk Sink.mk)) CryptoServer.new
        (questions (xs.map sessionRound)) (failure xs).isNone
        (fun r => Q r.1 (history (questions (xs.map sessionRound))) ∧ failure xs = none ∧
          ∀ x ∈ questions (xs.map sessionRound), ∃ resp, x.2 = .ok resp) (Ended xs) := by
  obtain ⟨as, has⟩ := crypto_paced hL hp k
  exact ⟨as, session_converses l has⟩

end

/-! ## A client that hashes -/

/-- `Result::expect`. -/
def expect [Allocator] {β : Type} : Except CryptoError β → CryptoClient β
  | .ok b => .ret b
  | .error _ => .panic

/-- What the four tests of hashes do, each for a type of its own: hash the witness, and compare the
digest with the arguments. -/
def unitTestHash [Allocator] (t : HasherType) (args witness : Bytes) : CryptoClient Int8 := do
  let ctx ← CkbCryptoClient.hasherNew t
  let updated ← CkbCryptoClient.hasherUpdate ctx witness
  expect updated
  let finalized ← CkbCryptoClient.hasherFinalize ctx
  let hash ← expect finalized
  return if hash ≠ args then 1 else 0

section

variable [Allocator] [Serde CkbCryptoRequest] [Serde CkbCryptoResponse] {L : CryptoLibraries}

/-- A stub gives what the ideal service does. -/
theorem stub_ideal {β : Type} {req : CkbCryptoRequest} {ret : CkbCryptoResponse → Option β}
    {log : HasherLog} {P : β → HasherLog → Prop} (hreq : RoundTrips req)
    (hreturns : L.Returns req) (hnew : ∀ t, req = .hasherNew t → log.issued.length + 1 < 2 ^ 64)
    (h : ∀ resp log', Allowed L log req resp log' →
      RoundTrips resp ∧ ∃ b, ret resp = some b ∧ P b log') :
    Always (ideal L) (returns P) (CkbCryptoClient.stub req ret) log := by
  refine .call ⟨req, rfl, hreq, hreturns, hnew, fun resp log' hr => (h resp log' hr).1⟩ ?_
  rintro _ log' ⟨_, resp, hcall, rfl, hallowed⟩
  obtain rfl := Ask.call.inj hcall
  obtain ⟨-, b, hb, hp⟩ := h resp log' hallowed
  simp only [hb]
  exact .ret hp

/-- The session of such a test. -/
def hashSession (L : CryptoLibraries) (t : HasherType) (witness : Bytes) :
    List (CkbCryptoRequest × CkbCryptoResponse) :=
  [(.hasherNew t, .hasherNew ⟨0⟩), (.hasherUpdate ⟨0⟩ witness, .hasherUpdate (.ok ())),
    (.hasherFinalize ⟨0⟩, .hasherFinalize (.ok (L.hash.digest t witness)))]

/-- The codec carries what is asked and answered in a session. -/
def Carried (session : List (CkbCryptoRequest × CkbCryptoResponse)) : Prop :=
  ∀ x ∈ session, RoundTrips x.1 ∧ RoundTrips x.2

/-- The history of the first context, once it has taken `taken`. -/
def oneContext (t : HasherType) (taken : List Bytes) : HasherLog :=
  .new t ⟨0⟩ :: taken.map fun data => .update ⟨0⟩ data (.ok ())

omit [Allocator] [Serde CkbCryptoRequest] [Serde CkbCryptoResponse] in
theorem oneContext_live (t t' : HasherType) (taken : List Bytes) :
    (oneContext t taken).Live ⟨0⟩ t' ↔ t' = t := by
  have hissued : (oneContext t taken).issued = [(⟨0⟩, t)] := by
    simp [oneContext, HasherLog.issued, List.filterMap_map]
  have hopen : ¬ (oneContext t taken).Finalized ⟨0⟩ := by
    rintro ⟨digest, h⟩
    simp [oneContext] at h
  rw [HasherLog.Live, hissued, and_iff_left hopen, List.mem_singleton, Prod.mk.injEq,
    and_iff_right rfl]

omit [Allocator] [Serde CkbCryptoRequest] [Serde CkbCryptoResponse] in
theorem oneContext_absorbed (t : HasherType) (taken : List Bytes) :
    (oneContext t taken).absorbed ⟨0⟩ = taken.flatten := by
  rw [oneContext, HasherLog.absorbed, List.flatMap_cons, List.flatMap_map]
  simp only [↓reduceIte, List.nil_append]
  exact List.flatMap_id'

theorem unitTestHash_ideal {t : HasherType} {args witness : Bytes}
    (h : Carried (hashSession L t witness)) :
    Always (ideal L) (returns fun code _ => code = if L.hash.digest t witness = args then 0 else 1)
      (unitTestHash t args witness) [] := by
  simp only [Carried, hashSession, List.forall_mem_cons] at h
  obtain ⟨hnew, hupdate, hfinalize, -⟩ := h
  refine always_bind_returns (P := fun ctx log => ctx = ⟨0⟩ ∧ log = oneContext t [])
    (stub_ideal hnew.1 trivial (fun _ _ => by decide) ?_) ?_
  · rintro _ _ (@⟨_, ⟨n⟩, hn⟩)
    obtain rfl : n = 0 := UInt64.toNat_inj.mp hn
    exact ⟨hnew.2, _, rfl, rfl, rfl⟩
  rintro _ _ ⟨rfl, rfl⟩
  refine always_bind_returns (P := fun ret log => ret = .ok () ∧ log = oneContext t [witness])
    (stub_ideal hupdate.1 trivial nofun ?_) ?_
  · intro resp log' hallowed
    cases hallowed with
    | updated _ => exact ⟨hupdate.2, _, rfl, rfl, rfl⟩
    | updateRefused hno => exact absurd ((oneContext_live t t []).mpr rfl) (hno t)
  rintro _ _ ⟨rfl, rfl⟩
  show Always (ideal L) _ ((CkbCryptoClient.hasherFinalize ⟨0⟩).bind _) _
  refine always_bind_returns (P := fun ret _ => ret = .ok (L.hash.digest t witness))
    (stub_ideal hfinalize.1 trivial nofun ?_) ?_
  · intro resp log' hallowed
    cases hallowed with
    | @finalized _ t' hlive =>
      obtain rfl := (oneContext_live t t' [witness]).mp hlive
      rw [oneContext_absorbed, List.flatten_singleton]
      exact ⟨hfinalize.2, _, rfl, rfl⟩
    | finalizeRefused hno => exact absurd ((oneContext_live t t [witness]).mpr rfl) (hno t)
  rintro _ log rfl
  exact .ret (ite_not _ _ _)

end

/-! ## The digest of `abc` -/

/-- Nothing is asked of the curve and of the signature schemes. -/
def abcCryptoLibraries : CryptoLibraries where
  hash := abcLibraries
  k256 := K256.multiples
  ecdsa := ⟨Unit, Unit, fun _ => some none, fun _ => some none, fun _ _ _ => some false⟩
  schnorr := ⟨Unit, Unit, fun _ => some none, fun _ => some none, fun _ _ _ => some false⟩
  ed25519 := ⟨Unit, Unit, fun _ => some none, fun _ => some none, fun _ _ _ => some false⟩

def abcSession : List (CkbCryptoRequest × CkbCryptoResponse) :=
  hashSession abcCryptoLibraries .sha256 [0x61, 0x62, 0x63]

/-- An enum variant, an object with one field. -/
def jsonVariant (name : String) (value : Bytes) : Bytes :=
  Service.ascii "\x7b\"" ++ Service.ascii name ++ Service.ascii "\":" ++ value ++
    Service.ascii "\x7d"

def jsonNumber (n : Nat) : Bytes := Service.ascii (toString n)

def jsonBytes (data : Bytes) : Bytes :=
  Service.ascii "[" ++
    (Service.ascii ",").intercalate (data.map fun byte => jsonNumber byte.toNat) ++
    Service.ascii "]"

/-- The JSON of the requests of the session; no other is looked for. -/
def CkbCryptoRequest.json : CkbCryptoRequest → Bytes
  | .hasherNew _ => jsonVariant "HasherNew" (jsonVariant "hash_type" (Service.ascii "\"Sha256\""))
  | .hasherUpdate ctx data => jsonVariant "HasherUpdate" (Service.ascii "\x7b\"ctx\":" ++
      jsonNumber ctx.val.toNat ++ Service.ascii ",\"data\":" ++ jsonBytes data ++
      Service.ascii "\x7d")
  | .hasherFinalize ctx =>
    jsonVariant "HasherFinalize" (jsonVariant "ctx" (jsonNumber ctx.val.toNat))
  | _ => []

def CkbCryptoResponse.json : CkbCryptoResponse → Bytes
  | .hasherNew ctx => jsonVariant "HasherNew" (jsonNumber ctx.val.toNat)
  | .hasherUpdate _ => jsonVariant "HasherUpdate" (jsonVariant "Ok" (Service.ascii "null"))
  | .hasherFinalize (.ok digest) =>
    jsonVariant "HasherFinalize" (jsonVariant "Ok" (jsonBytes digest))
  | _ => []

section

attribute [local instance] Allocator.ample

/-- What `serde_json` gives for the requests of the session. -/
@[reducible] def CkbCryptoRequest.codec : Serde CkbCryptoRequest where
  toVec req := if h : req.json.length ≤ isizeMax then some ⟨_, h⟩ else none
  fromSlice bytes := (abcSession.map Prod.fst).find? fun req => req.json = bytes

/-- What it gives for its responses. -/
@[reducible] def CkbCryptoResponse.codec : Serde CkbCryptoResponse where
  toVec resp := if h : resp.json.length ≤ isizeMax then some ⟨_, h⟩ else none
  fromSlice bytes := (abcSession.map Prod.snd).find? fun resp => resp.json = bytes

attribute [local instance] CkbCryptoRequest.codec CkbCryptoResponse.codec

theorem abc_carried : Carried abcSession := by
  intro x hx
  simp only [abcSession, hashSession, List.mem_cons, List.not_mem_nil, or_false] at hx
  rcases hx with rfl | rfl | rfl
  · decide +kernel
  · decide +kernel
  · decide +kernel

theorem abc_digest :
    abcCryptoLibraries.hash.digest .sha256 [0x61, 0x62, 0x63] = sha256Abc := rfl

theorem abc_ideal : Always (ideal abcCryptoLibraries) (returns fun code _ => code = 0)
    (unitTestHash .sha256 sha256Abc [0x61, 0x62, 0x63]) [] :=
  (unitTestHash_ideal abc_carried).mono
    (returns_mono fun _ _ h => h.trans (if_pos abc_digest))

/-- The digest is right, and so is the exit code. -/
theorem abc_end_to_end :
    ∃ as : List (Ask CkbCryptoRequest),
      let xs := replies (CryptoServer.answer abcCryptoLibraries) CryptoServer.new
        ((as.filterMap Ask.payload).map Ask.incoming)
      Converses (CryptoServer.answer abcCryptoLibraries)
        ((unitTestHash .sha256 sha256Abc [0x61, 0x62, 0x63]).via Channel.ask
          (Channel.new 8 Source.mk Sink.mk) : Prog (IoRes Unit Unit) _)
        (Channel.execute served (Channel.new 8 Source.mk Sink.mk)) CryptoServer.new
        (questions (xs.map sessionRound)) (failure xs).isNone
        (fun r => r.1 = 0 ∧ failure xs = none ∧
          ∀ x ∈ questions (xs.map sessionRound), ∃ resp, x.2 = .ok resp) (Ended xs) :=
  crypto_end_to_end ⟨knowing_streams _, knowing_streams _, knowing_streams _⟩
    (unitTestHash .sha256 sha256Abc [0x61, 0x62, 0x63]) (fun code _ => code = 0) abc_ideal 8 8

end

end CkbScriptIpc
