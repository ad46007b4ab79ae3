import CkbScriptIpc.CryptoService

/-!
# The contract that tests the crypto service

`unit-tests-crypto`, a script of its own that calls the crypto service and exits with a code. The
contexts and the bytes travel over the pipes; what the code says is about the libraries.

* `programEntry_ideal`: with the ideal service the code is the `verdict` of the libraries;
* `contract_end_to_end`: and so it is with `CryptoServer` at the other end of the pipes.
-/

namespace CkbScriptIpc

open Interaction

/-! ## The contract -/

inductive Cmd where
  | ckbBlake2b
  | blake2b
  | sha256
  | ripemd160
  | secp256k1Recover
  | secp256k1Verify
  | schnorrVerify
  | ed25519Verfiy
  deriving DecidableEq, Repr

/-- `From<u8>`; `none` is its panic. -/
def Cmd.ofU8 : UInt8 → Option Cmd
  | 0 => some .ckbBlake2b
  | 1 => some .blake2b
  | 2 => some .sha256
  | 3 => some .ripemd160
  | 4 => some .secp256k1Recover
  | 5 => some .secp256k1Verify
  | 6 => some .schnorrVerify
  | 7 => some .ed25519Verfiy
  | _ => none

structure CryptoInfo where
  cmd : Cmd
  args : Bytes
  witness : Bytes

/-- The arguments of the script are a command, the 32 bytes that name the cell of the service, and
those of the test; `none` is a panic. -/
def CryptoInfo.new (scriptArgs witness : Bytes) : Option CryptoInfo :=
  match scriptArgs with
  | [] => none
  | cmd :: args =>
    (Cmd.ofU8 cmd).bind fun cmd =>
      if 32 ≤ args.length then some ⟨cmd, args.drop 32, witness⟩ else none

/-- A length of one byte and as many bytes, and what is behind them; `none` is a panic. -/
def takeField : Bytes → Option (Bytes × Bytes)
  | [] => none
  | len :: witness =>
    if len.toNat ≤ witness.length then
      some (witness.take len.toNat, witness.drop len.toNat)
    else none

section

variable [Allocator]

def unitTestCkbBlake2b (info : CryptoInfo) : CryptoClient Int8 :=
  unitTestHash .ckbBlake2b info.args info.witness

def unitTestBlake2b (info : CryptoInfo) : CryptoClient Int8 :=
  unitTestHash .blake2b info.args info.witness

def unitTestSha256 (info : CryptoInfo) : CryptoClient Int8 :=
  unitTestHash .sha256 info.args info.witness

def unitTestRipemd160 (info : CryptoInfo) : CryptoClient Int8 :=
  unitTestHash .ripemd160 info.args info.witness

def unitTestSecp256k1Recovery (info : CryptoInfo) : CryptoClient Int8 := do
  let (prehash, witness) ← Prog.unwrap (takeField info.witness)
  let (signature, witness) ← Prog.unwrap (takeField witness)
  let recoveryId ← Prog.unwrap witness.head?
  let ret ← CkbCryptoClient.secp256k1Recovery prehash signature recoveryId
  match ret with
  | .ok vk2 => return if info.args = vk2 then 0 else 2
  | .error _ => return 1

/-- What the tests of signatures do, each with a method of its own. -/
def unitTestVerify (verify : Bytes → Bytes → Bytes → CryptoClient (Except CryptoError Unit))
    (info : CryptoInfo) : CryptoClient Int8 := do
  let (prehash, witness) ← Prog.unwrap (takeField info.witness)
  let (signature, _) ← Prog.unwrap (takeField witness)
  let ret ← verify info.args prehash signature
  match ret with
  | .ok _ => return 0
  | .error _ => return 1

def unitTestSecp256k1Verify : CryptoInfo → CryptoClient Int8 :=
  unitTestVerify CkbCryptoClient.secp256k1Verify

def unitTestSchnorr : CryptoInfo → CryptoClient Int8 :=
  unitTestVerify CkbCryptoClient.schnorrVerify

def unitTestEd25519Verify : CryptoInfo → CryptoClient Int8 :=
  unitTestVerify CkbCryptoClient.ed25519Verify

/-- The contract, with the arguments of its script and the lock of its witness. -/
def programEntry (scriptArgs witness : Bytes) : CryptoClient Int8 := do
  let info ← Prog.unwrap (CryptoInfo.new scriptArgs witness)
  match info.cmd with
  | .ckbBlake2b => unitTestCkbBlake2b info
  | .blake2b => unitTestBlake2b info
  | .sha256 => unitTestSha256 info
  | .ripemd160 => unitTestRipemd160 info
  | .secp256k1Recover => unitTestSecp256k1Recovery info
  | .secp256k1Verify => unitTestSecp256k1Verify info
  | .schnorrVerify => unitTestSchnorr info
  | .ed25519Verfiy => unitTestEd25519Verify info

end

/-! ## What the libraries say -/

/-- What is asked and answered in a test, and the code with which it exits. -/
structure Verdict where
  session : List (CkbCryptoRequest × CkbCryptoResponse)
  code : Int8

section

variable (L : CryptoLibraries) (info : CryptoInfo)

def hashVerdict (t : HasherType) : Verdict where
  session := hashSession L t info.witness
  code := if L.hash.digest t info.witness = info.args then 0 else 1

def recoveryVerdict : Option Verdict := do
  let (prehash, witness) ← takeField info.witness
  let (signature, witness) ← takeField witness
  let recoveryId ← witness.head?
  let ret ← L.k256.secp256k1Recovery prehash signature recoveryId
  return {
    session := [(.secp256k1Recovery prehash signature recoveryId, .secp256k1Recovery ret)]
    code := match ret with
      | .ok vk => if info.args = vk then 0 else 2
      | .error _ => 1 }

def verifyVerdict (request : Bytes → Bytes → Bytes → CkbCryptoRequest)
    (response : Except CryptoError Unit → CkbCryptoResponse)
    (check : Bytes → Bytes → Bytes → Option (Except CryptoError Unit)) : Option Verdict := do
  let (prehash, witness) ← takeField info.witness
  let (signature, _) ← takeField witness
  let ret ← check info.args prehash signature
  return {
    session := [(request info.args prehash signature, response ret)]
    code := if ret.toBool then 0 else 1 }

/-- The verdict of the libraries, for a witness that is well formed and on which they do not
panic. -/
def CryptoInfo.verdict : Option Verdict :=
  match info.cmd with
  | .ckbBlake2b => some (hashVerdict L info .ckbBlake2b)
  | .blake2b => some (hashVerdict L info .blake2b)
  | .sha256 => some (hashVerdict L info .sha256)
  | .ripemd160 => some (hashVerdict L info .ripemd160)
  | .secp256k1Recover => recoveryVerdict L info
  | .secp256k1Verify =>
    verifyVerdict info .secp256k1Verify .secp256k1Verify (CryptoServer.secp256k1Verify L)
  | .schnorrVerify =>
    verifyVerdict info .schnorrVerify .schnorrVerify (CryptoServer.schnorrVerify L)
  | .ed25519Verfiy =>
    verifyVerdict info .ed25519Verify .ed25519Verify (CryptoServer.ed25519Verify L)

end

section

variable [Allocator] [Serde CkbCryptoRequest] [Serde CkbCryptoResponse] {L : CryptoLibraries}
  {info : CryptoInfo} {v : Verdict}

theorem recovery_ideal (hv : recoveryVerdict L info = some v) (h : Carried v.session) :
    Always (ideal L) (returns fun code _ => code = v.code) (unitTestSecp256k1Recovery info) [] := by
  simp only [recoveryVerdict, Option.bind_eq_bind, Option.bind_eq_some_iff] at hv
  obtain ⟨⟨prehash, witness⟩, hprehash, ⟨signature, witness'⟩, hsignature, id, hid, ret, hret,
    hv⟩ := hv
  obtain rfl := Option.some.inj hv
  obtain ⟨hreq, hresp⟩ := h _ List.mem_cons_self
  refine always_unwrap hprehash (always_unwrap hsignature (always_unwrap hid
    (always_bind_returns (P := fun ret' _ => ret' = ret) (stub_ideal hreq trivial nofun ?_) ?_)))
  · intro _ log' hallowed
    cases hallowed with
    | recovered hret' =>
      obtain rfl := Option.some.inj (hret.symm.trans hret')
      exact ⟨hresp, _, rfl, rfl⟩
  · rintro ret' log rfl
    cases ret' with
    | ok vk => exact .ret rfl
    | error e => exact .ret rfl

/-- A test of signatures, whose stub does what the library says. -/
theorem verify_ideal {request : Bytes → Bytes → Bytes → CkbCryptoRequest}
    {response : Except CryptoError Unit → CkbCryptoResponse}
    {check : Bytes → Bytes → Bytes → Option (Except CryptoError Unit)}
    {verify : Bytes → Bytes → Bytes → CryptoClient (Except CryptoError Unit)}
    (hverify : ∀ key prehash signature ret, check key prehash signature = some ret →
      RoundTrips (request key prehash signature) → RoundTrips (response ret) → Always (ideal L)
        (returns fun ret' _ => ret' = ret) (verify key prehash signature) [])
    (hv : verifyVerdict info request response check = some v) (h : Carried v.session) :
    Always (ideal L) (returns fun code _ => code = v.code) (unitTestVerify verify info) [] := by
  simp only [verifyVerdict, Option.bind_eq_bind, Option.bind_eq_some_iff] at hv
  obtain ⟨⟨prehash, witness⟩, hprehash, ⟨signature, witness'⟩, hsignature, ret, hret,
    hv⟩ := hv
  obtain rfl := Option.some.inj hv
  obtain ⟨hreq, hresp⟩ := h _ List.mem_cons_self
  refine always_unwrap hprehash (always_unwrap hsignature
    (always_bind_returns (hverify _ _ _ _ hret hreq hresp) ?_))
  rintro ret' log rfl
  cases ret' with
  | ok _ => exact .ret rfl
  | error e => exact .ret rfl

/-- **The contract with the ideal service.** -/
theorem programEntry_ideal {scriptArgs witness : Bytes}
    (hinfo : CryptoInfo.new scriptArgs witness = some info) (hv : info.verdict L = some v)
    (h : Carried v.session) :
    Always (ideal L) (returns fun code _ => code = v.code) (programEntry scriptArgs witness)
      [] := by
  refine always_unwrap hinfo ?_
  rw [CryptoInfo.verdict] at hv
  cases hcmd : info.cmd with
  | secp256k1Recover =>
    rw [hcmd] at hv
    exact recovery_ideal hv h
  | secp256k1Verify =>
    rw [hcmd] at hv
    refine verify_ideal (fun key prehash signature ret hret hreq hresp =>
      stub_ideal hreq ⟨ret, hret⟩ nofun ?_) hv h
    intro _ log' hallowed
    cases hallowed with
    | secp256k1Verified hret' =>
      obtain rfl := Option.some.inj (hret.symm.trans hret')
      exact ⟨hresp, _, rfl, rfl⟩
  | schnorrVerify =>
    rw [hcmd] at hv
    refine verify_ideal (fun key prehash signature ret hret hreq hresp =>
      stub_ideal hreq ⟨ret, hret⟩ nofun ?_) hv h
    intro _ log' hallowed
    cases hallowed with
    | schnorrVerified hret' =>
      obtain rfl := Option.some.inj (hret.symm.trans hret')
      exact ⟨hresp, _, rfl, rfl⟩
  | ed25519Verfiy =>
    rw [hcmd] at hv
    refine verify_ideal (fun key prehash signature ret hret hreq hresp =>
      stub_ideal hreq ⟨ret, hret⟩ nofun ?_) hv h
    intro _ log' hallowed
    cases hallowed with
    | ed25519Verified hret' =>
      obtain rfl := Option.some.inj (hret.symm.trans hret')
      exact ⟨hresp, _, rfl, rfl⟩
  | _ =>
    rw [hcmd] at hv
    obtain rfl := Option.some.inj hv
    exact unitTestHash_ideal h

/-- **The contract end to end.** In every interleaving of the contract and the crypto service the
contract exits with the code that the libraries say, when its witness is well formed, the libraries
do not panic on it and the codec carries the session. -/
theorem contract_end_to_end (hL : L.hash.Stream) (scriptArgs witness : Bytes)
    (hinfo : CryptoInfo.new scriptArgs witness = some info) (hv : info.verdict L = some v)
    (h : Carried v.session) (k l : Nat) :
    ∃ as : List (Ask CkbCryptoRequest),
      let xs := replies (CryptoServer.answer L) CryptoServer.new
        ((as.filterMap Ask.payload).map Ask.incoming)
      Converses (CryptoServer.answer L)
        ((programEntry scriptArgs witness).via Channel.ask (Channel.new k Source.mk Sink.mk) :
          Prog (IoRes Unit Unit) _)
        (Channel.execute served (Channel.new l Source.mk Sink.mk)) CryptoServer.new
        (questions (xs.map sessionRound)) (failure xs).isNone
        (fun r => r.1 = v.code ∧ failure xs = none) (Ended xs) := by
  obtain ⟨as, has⟩ := crypto_paced hL (programEntry_ideal hinfo hv h) k
  refine ⟨as, session_converses l (has.mono (returns_mono ?_))⟩
  rintro r w ⟨⟨hcode, hnone, -⟩, hw⟩
  exact ⟨⟨hcode, hnone⟩, hw⟩

end

section

attribute [local instance] Allocator.ample CkbCryptoRequest.codec CkbCryptoResponse.codec

/-- The command, the name of a cell, and the digest of `abc`. -/
def abcArgs : Bytes := 2 :: (List.replicate 32 0 ++ sha256Abc)

/-- The digest of `abc` is that of the arguments. -/
theorem abc_contract :
    ∃ as : List (Ask CkbCryptoRequest),
      let xs := replies (CryptoServer.answer abcCryptoLibraries) CryptoServer.new
        ((as.filterMap Ask.payload).map Ask.incoming)
      Converses (CryptoServer.answer abcCryptoLibraries)
        ((programEntry abcArgs [0x61, 0x62, 0x63]).via Channel.ask
          (Channel.new 8 Source.mk Sink.mk) : Prog (IoRes Unit Unit) _)
        (Channel.execute served (Channel.new 8 Source.mk Sink.mk)) CryptoServer.new
        (questions (xs.map sessionRound)) (failure xs).isNone
        (fun r => r.1 = 0 ∧ failure xs = none) (Ended xs) :=
  contract_end_to_end ⟨knowing_streams _, knowing_streams _, knowing_streams _⟩ abcArgs
    [0x61, 0x62, 0x63] rfl rfl abc_carried 8 8

end

end CkbScriptIpc
