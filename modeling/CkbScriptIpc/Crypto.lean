import CkbScriptIpc.Interaction.Stream
import Mathlib.Algebra.Group.Nat.Defs
import Mathlib.Data.List.Nodup
import Mathlib.Logic.Function.Basic

/-!
# The crypto service

The hashers of `ckb-crypto-service`, which live from `hasher_new` to `hasher_finalize`
under an id of their own. The hash libraries are a parameter, of which the service needs
that `update` is streaming.

The log of a run says which ids were issued and what was absorbed under each; the
hashers that the server holds are those of the live ids (`Represents`), and every
request keeps it so (`represents_step`).
-/

namespace CkbScriptIpc

open Interaction

inductive CryptoError where
  | invalidContext
  | invalidSig
  | invalidPrehash
  | invalidRecoveryId
  | invalidPubkey
  | recoveryFailed
  | verifyFailed
  deriving DecidableEq, Repr

inductive HasherType where
  | ckbBlake2b
  | blake2b
  | sha256
  | ripemd160
  deriving DecidableEq, Repr

structure HasherCtx where
  val : UInt64
  deriving DecidableEq, Repr

/-! ## The hash libraries -/

/-- The contexts of a hash library, their `update` and their `finalize`. -/
structure HashLibrary where
  State : Type
  update : State → Bytes → State
  finalize : State → Bytes

/-- Updates absorb their data as one stream. -/
structure HashLibrary.Streams (H : HashLibrary) : Prop where
  update_nil : ∀ s, H.update s [] = s
  update_append : ∀ s x y, H.update (H.update s x) y = H.update s (x ++ y)

/-- The three libraries, and how a context of each is made. -/
structure HashLibraries where
  blake2b : HashLibrary
  blake2bBuild : (size : Nat) → (personal : Option Bytes) → blake2b.State
  sha256 : HashLibrary
  sha256New : sha256.State
  ripemd160 : HashLibrary
  ripemd160New : ripemd160.State

structure HashLibraries.Stream (L : HashLibraries) : Prop where
  blake2b : L.blake2b.Streams
  sha256 : L.sha256.Streams
  ripemd160 : L.ripemd160.Streams

variable {L : HashLibraries}

/-! ## The service -/

/-- `Box<dyn Hasher>`; the context is gone once it is finalized. -/
inductive Hasher (L : HashLibraries) where
  | blake2b (ctx : Option L.blake2b.State)
  | sha256 (ctx : Option L.sha256.State)
  | ripemd160 (ctx : Option L.ripemd160.State)

namespace Hasher

/-- `ctx.as_mut().unwrap().update(data)`; `none` is the panic of the `unwrap`. -/
def update (data : Bytes) : Hasher L → Option (Hasher L)
  | .blake2b ctx => ctx.map fun ctx => .blake2b (some (L.blake2b.update ctx data))
  | .sha256 ctx => ctx.map fun ctx => .sha256 (some (L.sha256.update ctx data))
  | .ripemd160 ctx => ctx.map fun ctx => .ripemd160 (some (L.ripemd160.update ctx data))

/-- The digest of `ctx.take().unwrap()`, and the hasher without its context. -/
def finalize : Hasher L → Option (Bytes × Hasher L)
  | .blake2b ctx => ctx.map fun ctx => (L.blake2b.finalize ctx, .blake2b none)
  | .sha256 ctx => ctx.map fun ctx => (L.sha256.finalize ctx, .sha256 none)
  | .ripemd160 ctx => ctx.map fun ctx => (L.ripemd160.finalize ctx, .ripemd160 none)

end Hasher

/-- `b"ckb-default-hash"`. -/
def ckbHashPersonalization : Bytes :=
  [0x63, 0x6B, 0x62, 0x2D, 0x64, 0x65, 0x66, 0x61, 0x75, 0x6C, 0x74, 0x2D, 0x68, 0x61, 0x73, 0x68]

/-- `hashers` is the map from ids to hashers. -/
structure CryptoServer (L : HashLibraries) where
  hashers : UInt64 → Option (Hasher L)
  hasherCount : UInt64

namespace CryptoServer

def new : CryptoServer L := ⟨fun _ => none, 0⟩

/-- The hasher that `hasher_new` makes. -/
def build : HasherType → Hasher L
  | .ckbBlake2b => .blake2b (some (L.blake2bBuild 32 (some ckbHashPersonalization)))
  | .blake2b => .blake2b (some (L.blake2bBuild 32 none))
  | .sha256 => .sha256 (some L.sha256New)
  | .ripemd160 => .ripemd160 (some L.ripemd160New)

/-- The sum of `hasher_count` is checked for overflow; `none` is its panic. -/
def hasherNew (hashType : HasherType) (s : CryptoServer L) : Option (HasherCtx × CryptoServer L) :=
  let id := s.hasherCount
  if s.hasherCount.toNat + 1 < 2 ^ 64 then
    some (⟨id⟩, ⟨Function.update s.hashers id (some (build hashType)), s.hasherCount + 1⟩)
  else none

def hasherUpdate (ctx : HasherCtx) (data : Bytes) (s : CryptoServer L) :
    Option (Except CryptoError Unit × CryptoServer L) :=
  match s.hashers ctx.val with
  | some hasher => (hasher.update data).map fun hasher =>
      (.ok (), { s with hashers := Function.update s.hashers ctx.val (some hasher) })
  | none => some (.error .invalidContext, s)

def hasherFinalize (ctx : HasherCtx) (s : CryptoServer L) :
    Option (Except CryptoError Bytes × CryptoServer L) :=
  match s.hashers ctx.val with
  | some hasher => hasher.finalize.map fun digest =>
      (.ok digest.1, { s with hashers := Function.update s.hashers ctx.val none })
  | none => some (.error .invalidContext, s)

end CryptoServer

/-! ## Requests and their log -/

/-- The requests about hashers. -/
inductive HasherRequest where
  | new (hashType : HasherType)
  | update (ctx : HasherCtx) (data : Bytes)
  | finalize (ctx : HasherCtx)
  deriving DecidableEq, Repr

/-- A request with what the server returned for it. -/
inductive HasherCall where
  | new (hashType : HasherType) (ctx : HasherCtx)
  | update (ctx : HasherCtx) (data : Bytes) (result : Except CryptoError Unit)
  | finalize (ctx : HasherCtx) (result : Except CryptoError Bytes)

abbrev HasherLog := List HasherCall

namespace CryptoServer

def serve (s : CryptoServer L) : HasherRequest → Option (HasherCall × CryptoServer L)
  | .new hashType => (s.hasherNew hashType).map fun r => (.new hashType r.1, r.2)
  | .update ctx data => (s.hasherUpdate ctx data).map fun r => (.update ctx data r.1, r.2)
  | .finalize ctx => (s.hasherFinalize ctx).map fun r => (.finalize ctx r.1, r.2)

/-- One request after another; the log goes on behind `log`. -/
def run : List HasherRequest → HasherLog → CryptoServer L → Option (HasherLog × CryptoServer L)
  | [], log, s => some (log, s)
  | req :: reqs, log, s => do
    let (call, s) ← s.serve req
    run reqs (log ++ [call]) s

end CryptoServer

namespace HasherLog

/-- The ids that `hasher_new` returned, with their types. -/
def issued (log : HasherLog) : List (HasherCtx × HasherType) :=
  log.filterMap fun
    | .new hashType ctx => some (ctx, hashType)
    | _ => none

/-- `hasher_finalize` has returned a digest. -/
def Finalized (log : HasherLog) (ctx : HasherCtx) : Prop :=
  ∃ digest, HasherCall.finalize ctx (.ok digest) ∈ log

/-- The id was issued for a hasher of this type, and not finalized. -/
def Live (log : HasherLog) (ctx : HasherCtx) (hashType : HasherType) : Prop :=
  (ctx, hashType) ∈ issued log ∧ ¬ Finalized log ctx

/-- The data of the accepted updates on an id, in order. -/
def absorbed (log : HasherLog) (ctx : HasherCtx) : Bytes :=
  log.flatMap fun
    | .update ctx' data (.ok ()) => if ctx' = ctx then data else []
    | _ => []

end HasherLog

def HasherCall.request : HasherCall → HasherRequest
  | .new hashType _ => .new hashType
  | .update ctx data _ => .update ctx data
  | .finalize ctx _ => .finalize ctx

def HasherRequest.isNew : HasherRequest → Bool
  | .new _ => true
  | _ => false

/-- The digest of `data`, all at once. -/
def HashLibraries.digest (L : HashLibraries) : HasherType → Bytes → Bytes
  | .ckbBlake2b, data =>
    L.blake2b.finalize (L.blake2b.update (L.blake2bBuild 32 (some ckbHashPersonalization)) data)
  | .blake2b, data => L.blake2b.finalize (L.blake2b.update (L.blake2bBuild 32 none) data)
  | .sha256, data => L.sha256.finalize (L.sha256.update L.sha256New data)
  | .ripemd160, data => L.ripemd160.finalize (L.ripemd160.update L.ripemd160New data)

/-- What the next request gets behind a log. A live id takes updates and gives the digest of
its own data, another is refused; a new id is one that was never issued. -/
structure Isolated (log : HasherLog) (s : CryptoServer L) : Prop where
  distinct : (log.issued.map Prod.fst).Nodup
  fresh : ∀ hashType, log.issued.length + 1 < 2 ^ 64 →
    ∃ ctx s', s.hasherNew hashType = some (ctx, s') ∧ ∀ t, (ctx, t) ∉ log.issued
  update : ∀ {ctx t}, log.Live ctx t → ∀ data, ∃ s', s.hasherUpdate ctx data = some (.ok (), s')
  finalize : ∀ {ctx t}, log.Live ctx t →
    ∃ s', s.hasherFinalize ctx = some (.ok (L.digest t (log.absorbed ctx)), s')
  refused : ∀ {ctx}, (∀ t, ¬ log.Live ctx t) →
    (∀ data, s.hasherUpdate ctx data = some (.error .invalidContext, s)) ∧
      s.hasherFinalize ctx = some (.error .invalidContext, s)

/-! ## Hashers -/

namespace Hasher

/-- A new hasher that has absorbed `data`. -/
def started : HasherType → Bytes → Hasher L
  | .ckbBlake2b, data =>
    .blake2b (some (L.blake2b.update (L.blake2bBuild 32 (some ckbHashPersonalization)) data))
  | .blake2b, data => .blake2b (some (L.blake2b.update (L.blake2bBuild 32 none) data))
  | .sha256, data => .sha256 (some (L.sha256.update L.sha256New data))
  | .ripemd160, data => .ripemd160 (some (L.ripemd160.update L.ripemd160New data))

theorem build_eq (hL : L.Stream) (t : HasherType) :
    CryptoServer.build t = (started t [] : Hasher L) := by
  cases t with
  | ckbBlake2b => simp [CryptoServer.build, started, hL.blake2b.update_nil]
  | blake2b => simp [CryptoServer.build, started, hL.blake2b.update_nil]
  | sha256 => simp [CryptoServer.build, started, hL.sha256.update_nil]
  | ripemd160 => simp [CryptoServer.build, started, hL.ripemd160.update_nil]

theorem update_started (hL : L.Stream) (t : HasherType) (x data : Bytes) :
    (started t x : Hasher L).update data = some (started t (x ++ data)) := by
  cases t with
  | ckbBlake2b => simp [update, started, hL.blake2b.update_append]
  | blake2b => simp [update, started, hL.blake2b.update_append]
  | sha256 => simp [update, started, hL.sha256.update_append]
  | ripemd160 => simp [update, started, hL.ripemd160.update_append]

theorem finalize_started (t : HasherType) (x : Bytes) :
    ∃ h, (started t x : Hasher L).finalize = some (L.digest t x, h) := by
  cases t <;> exact ⟨_, rfl⟩

end Hasher

/-! ## The log of a request -/

namespace HasherLog

variable {log : HasherLog} {ctx ctx' : HasherCtx} {t t' : HasherType} {data digest : Bytes}

theorem issued_snoc (log : HasherLog) (call : HasherCall) :
    issued (log ++ [call]) = issued log ++ issued [call] := by
  simp [issued]

theorem absorbed_snoc (log : HasherLog) (call : HasherCall) (ctx : HasherCtx) :
    absorbed (log ++ [call]) ctx = absorbed log ctx ++ absorbed [call] ctx := by
  simp [absorbed]

theorem finalized_snoc (call : HasherCall) :
    Finalized (log ++ [call]) ctx ↔ Finalized log ctx ∨ ∃ d, call = .finalize ctx (.ok d) := by
  simp only [Finalized, List.mem_append, List.mem_singleton, exists_or]
  exact or_congr_right ⟨fun ⟨d, h⟩ => ⟨d, h.symm⟩, fun ⟨d, h⟩ => ⟨d, h.symm⟩⟩

/-- A call that issues no id leaves an id live unless it finalizes it. -/
theorem live_snoc {call : HasherCall} (h : issued [call] = []) :
    Live (log ++ [call]) ctx t ↔ Live log ctx t ∧ ∀ d, call ≠ .finalize ctx (.ok d) := by
  rw [Live, Live, issued_snoc, h, List.append_nil, finalized_snoc, not_or, not_exists, and_assoc]

theorem live_new : Live (log ++ [.new t' ctx']) ctx t ↔
    ((ctx, t) ∈ issued log ∨ ctx = ctx' ∧ t = t') ∧ ¬ Finalized log ctx := by
  have hissued : issued (log ++ [.new t' ctx']) = issued log ++ [(ctx', t')] := issued_snoc _ _
  simp [Live, hissued, finalized_snoc]

/-- A call that changes nothing: it was refused. -/
structure Void (call : HasherCall) : Prop where
  issued : HasherLog.issued [call] = []
  absorbed : ∀ ctx, HasherLog.absorbed [call] ctx = []
  finalized : ∀ ctx d, call ≠ .finalize ctx (.ok d)

theorem void_update (ctx : HasherCtx) (data : Bytes) (e : CryptoError) :
    Void (.update ctx data (.error e)) :=
  ⟨rfl, fun _ => rfl, fun _ _ => by rintro ⟨⟩⟩

theorem void_finalize (ctx : HasherCtx) (e : CryptoError) : Void (.finalize ctx (.error e)) :=
  ⟨rfl, fun _ => rfl, fun _ _ => by rintro ⟨⟩⟩

end HasherLog

/-! ## The invariant -/

theorem HasherCtx.val_ne {c ctx : HasherCtx} (h : ctx ≠ c) : c.val ≠ ctx.val := by
  rintro he
  cases c
  cases he
  exact h rfl

/-- The server holds the hashers of the live ids, each with what was absorbed under its id. -/
structure Represents (log : HasherLog) (s : CryptoServer L) : Prop where
  count : s.hasherCount.toNat = log.issued.length
  issued_lt : ∀ {ctx t}, (ctx, t) ∈ log.issued → ctx.val.toNat < s.hasherCount.toNat
  distinct : (log.issued.map Prod.fst).Nodup
  quiet : ∀ {ctx}, (∀ t, (ctx, t) ∉ log.issued) → log.absorbed ctx = [] ∧ ¬ log.Finalized ctx
  hashers : ∀ ctx h, s.hashers ctx.val = some h ↔
    ∃ t, log.Live ctx t ∧ h = Hasher.started t (log.absorbed ctx)

section

variable {log : HasherLog} {s : CryptoServer L} {ctx : HasherCtx} {t t' : HasherType}
  {data : Bytes}

theorem represents_new : Represents [] (CryptoServer.new : CryptoServer L) where
  count := rfl
  issued_lt h := by cases h
  distinct := List.nodup_nil
  quiet _ := ⟨rfl, by rintro ⟨_, h⟩; cases h⟩
  hashers ctx h := by
    constructor
    · rintro ⟨⟩
    · rintro ⟨t, ⟨h, -⟩, -⟩
      cases h

namespace Represents

theorem hasher_live (hs : Represents log s) (h : log.Live ctx t) :
    s.hashers ctx.val = some (.started t (log.absorbed ctx)) :=
  (hs.hashers ctx _).mpr ⟨t, h, rfl⟩

theorem hasher_refused (hs : Represents log s) (h : ∀ t, ¬ log.Live ctx t) :
    s.hashers ctx.val = none := by
  cases hh : s.hashers ctx.val with
  | none => rfl
  | some hasher =>
    obtain ⟨t, ht, -⟩ := (hs.hashers ctx hasher).mp hh
    exact absurd ht (h t)

/-- The next id was not issued before. -/
theorem next_fresh (hs : Represents log s) (t : HasherType) : (⟨s.hasherCount⟩, t) ∉ log.issued :=
  fun h => Nat.lt_irrefl _ (hs.issued_lt h)

theorem type_eq (hs : Represents log s) (h : log.Live ctx t) (h' : log.Live ctx t') : t' = t := by
  have heq := List.inj_on_of_nodup_map hs.distinct h'.1 h.1 rfl
  exact congrArg Prod.snd heq

theorem hasherUpdate_live (hL : L.Stream) (hs : Represents log s) (h : log.Live ctx t)
    (data : Bytes) :
    s.hasherUpdate ctx data = some (.ok (),
      ⟨Function.update s.hashers ctx.val (some (.started t (log.absorbed ctx ++ data))),
        s.hasherCount⟩) := by
  simp only [CryptoServer.hasherUpdate, hs.hasher_live h, Hasher.update_started hL, Option.map_some]

theorem hasherFinalize_live (hs : Represents log s) (h : log.Live ctx t) :
    s.hasherFinalize ctx = some (.ok (L.digest t (log.absorbed ctx)),
      ⟨Function.update s.hashers ctx.val none, s.hasherCount⟩) := by
  obtain ⟨gone, hgone⟩ := Hasher.finalize_started (L := L) t (log.absorbed ctx)
  simp only [CryptoServer.hasherFinalize, hs.hasher_live h, hgone, Option.map_some]

theorem hasherNew_eq (hs : Represents log s) (h : log.issued.length + 1 < 2 ^ 64)
    (hashType : HasherType) :
    s.hasherNew hashType = some (⟨s.hasherCount⟩,
      ⟨Function.update s.hashers s.hasherCount (some (CryptoServer.build hashType)),
        s.hasherCount + 1⟩) := by
  rw [← hs.count] at h
  simp only [CryptoServer.hasherNew, h, ↓reduceIte]

theorem isolated (hL : L.Stream) (hs : Represents log s) : Isolated log s where
  distinct := hs.distinct
  fresh hashType h := ⟨_, _, hs.hasherNew_eq h hashType, hs.next_fresh⟩
  update h data := ⟨_, hs.hasherUpdate_live hL h data⟩
  finalize h := ⟨_, hs.hasherFinalize_live h⟩
  refused h := by
    have hnone := hs.hasher_refused h
    exact ⟨fun data => by simp only [CryptoServer.hasherUpdate, hnone],
      by simp only [CryptoServer.hasherFinalize, hnone]⟩

/-! ### What a request does to it -/

/-- After a call that issues no id only the hashers are to be looked at. -/
theorem of_unissued (hs : Represents log s) {call : HasherCall} {s' : CryptoServer L}
    (hcount : s'.hasherCount = s.hasherCount) (hissued : HasherLog.issued [call] = [])
    (hquiet : ∀ c, (∀ t, (c, t) ∉ log.issued) →
      HasherLog.absorbed [call] c = [] ∧ ∀ d, call ≠ .finalize c (.ok d))
    (hhashers : ∀ c h, s'.hashers c.val = some h ↔
      ∃ t, (log.Live c t ∧ ∀ d, call ≠ .finalize c (.ok d)) ∧
        h = Hasher.started t (log.absorbed c ++ HasherLog.absorbed [call] c)) :
    Represents (log ++ [call]) s' := by
  have hsame : HasherLog.issued (log ++ [call]) = log.issued := by
    rw [HasherLog.issued_snoc, hissued, List.append_nil]
  constructor
  · rw [hsame, hcount]
    exact hs.count
  · rw [hsame, hcount]
    exact hs.issued_lt
  · rw [hsame]
    exact hs.distinct
  · intro c hc
    rw [hsame] at hc
    obtain ⟨hnil, hopen⟩ := hs.quiet hc
    obtain ⟨hnil', hopen'⟩ := hquiet c hc
    rw [HasherLog.absorbed_snoc, hnil, hnil', HasherLog.finalized_snoc]
    exact ⟨rfl, not_or.mpr ⟨hopen, not_exists.mpr hopen'⟩⟩
  · intro c h
    simp only [HasherLog.live_snoc hissued, HasherLog.absorbed_snoc]
    exact hhashers c h

/-- A call that was refused changes nothing. -/
theorem void (hs : Represents log s) {call : HasherCall} (h : HasherLog.Void call) :
    Represents (log ++ [call]) s := by
  refine hs.of_unissued rfl h.issued (fun c _ => ⟨h.absorbed c, h.finalized c⟩) fun c hasher => ?_
  rw [h.absorbed, List.append_nil, hs.hashers]
  exact exists_congr fun t => and_congr_left fun _ => (and_iff_left (h.finalized c)).symm

theorem new (hL : L.Stream) (hs : Represents log s) (h : log.issued.length + 1 < 2 ^ 64)
    (t : HasherType) :
    Represents (log ++ [.new t ⟨s.hasherCount⟩])
      (⟨Function.update s.hashers s.hasherCount (some (CryptoServer.build t)),
        s.hasherCount + 1⟩ : CryptoServer L) := by
  have hissued : HasherLog.issued (log ++ [.new t ⟨s.hasherCount⟩]) =
      log.issued ++ [(⟨s.hasherCount⟩, t)] := HasherLog.issued_snoc _ _
  have habsorbed : ∀ c, HasherLog.absorbed (log ++ [.new t ⟨s.hasherCount⟩]) c =
      log.absorbed c := fun c => by
    rw [HasherLog.absorbed_snoc]
    exact List.append_nil _
  have hfinalized : ∀ c, HasherLog.Finalized (log ++ [.new t ⟨s.hasherCount⟩]) c ↔
      log.Finalized c := fun c => by simp [HasherLog.finalized_snoc]
  have hcount : (s.hasherCount + 1).toNat = s.hasherCount.toNat + 1 := by
    rw [UInt64.toNat_add, hs.count]
    exact Nat.mod_eq_of_lt h
  obtain ⟨hquiet, hopen⟩ := hs.quiet hs.next_fresh
  constructor
  · rw [hissued, hcount, hs.count]
    simp
  · intro c t' hc
    rw [hissued, List.mem_append, List.mem_singleton] at hc
    rw [hcount]
    rcases hc with hc | hc
    · exact Nat.lt_succ_of_lt (hs.issued_lt hc)
    · cases hc
      exact Nat.lt_succ_self _
  · rw [hissued, List.map_append, List.nodup_append]
    refine ⟨hs.distinct, List.nodup_singleton _, ?_⟩
    simp only [List.mem_map, List.map_cons, List.map_nil, List.mem_singleton]
    rintro _ ⟨⟨c, t'⟩, hc, rfl⟩ _ rfl rfl
    exact hs.next_fresh t' hc
  · intro c hc
    rw [habsorbed, hfinalized]
    refine hs.quiet fun t' h' => hc t' ?_
    rw [hissued]
    exact List.mem_append_left _ h'
  · intro c hasher
    simp only [HasherLog.live_new, habsorbed]
    by_cases hc : ⟨s.hasherCount⟩ = c
    · subst hc
      rw [Function.update_self, Hasher.build_eq hL, hquiet, Option.some.injEq]
      constructor
      · rintro rfl
        exact ⟨t, ⟨.inr ⟨rfl, rfl⟩, hopen⟩, rfl⟩
      · rintro ⟨t', ⟨hmem | ⟨-, rfl⟩, -⟩, rfl⟩
        · exact absurd hmem (hs.next_fresh t')
        · rfl
    · rw [Function.update_of_ne (HasherCtx.val_ne hc), hs.hashers]
      simp only [Ne.symm hc, false_and, or_false, HasherLog.Live]

theorem update (hs : Represents log s) (h : log.Live ctx t) (data : Bytes) :
    Represents (log ++ [.update ctx data (.ok ())])
      (⟨Function.update s.hashers ctx.val (some (.started t (log.absorbed ctx ++ data))),
        s.hasherCount⟩ : CryptoServer L) := by
  have habsorbed : ∀ c, HasherLog.absorbed [.update ctx data (.ok ())] c =
      if ctx = c then data else [] := fun c => by simp [HasherLog.absorbed]
  have hopen : ∀ c d, HasherCall.update ctx data (.ok ()) ≠ .finalize c (.ok d) := by
    rintro c d ⟨⟩
  refine hs.of_unissued rfl rfl (fun c hc => ⟨?_, hopen c⟩) fun c hasher => ?_
  · have hne : ctx ≠ c := fun he => hc t (he ▸ h.1)
    rw [habsorbed, if_neg hne]
  · simp only [habsorbed, and_iff_left (hopen c)]
    by_cases hc : ctx = c
    · subst hc
      rw [Function.update_self, if_pos rfl, Option.some.injEq]
      constructor
      · rintro rfl
        exact ⟨t, h, rfl⟩
      · rintro ⟨t', h', rfl⟩
        rw [hs.type_eq h h']
    · have hne := HasherCtx.val_ne hc
      rw [Function.update_of_ne hne, if_neg hc, List.append_nil]
      exact hs.hashers c hasher

theorem finalize (hs : Represents log s) (h : log.Live ctx t) (digest : Bytes) :
    Represents (log ++ [.finalize ctx (.ok digest)])
      (⟨Function.update s.hashers ctx.val none, s.hasherCount⟩ : CryptoServer L) := by
  have hother : ∀ c, ctx ≠ c → ∀ d, HasherCall.finalize ctx (.ok digest) ≠ .finalize c (.ok d) := by
    rintro c hne d ⟨⟩
    exact hne rfl
  refine hs.of_unissued rfl rfl (fun c hc => ⟨rfl, hother c fun he => hc t (he ▸ h.1)⟩)
    fun c hasher => ?_
  have hnil : HasherLog.absorbed [.finalize ctx (.ok digest)] c = [] := rfl
  simp only [hnil, List.append_nil]
  by_cases hc : ctx = c
  · subst hc
    rw [Function.update_self]
    constructor
    · rintro ⟨⟩
    · rintro ⟨_, ⟨-, hopen⟩, -⟩
      exact absurd rfl (hopen digest)
  · have hne := HasherCtx.val_ne hc
    rw [Function.update_of_ne hne, hs.hashers]
    exact exists_congr fun t => and_congr_left fun _ => (and_iff_left (hother c hc)).symm

/-- A request is answered, and the server goes on to hold the live hashers. -/
theorem step (hL : L.Stream) (hs : Represents log s) (req : HasherRequest)
    (h : log.issued.length + [req].countP HasherRequest.isNew < 2 ^ 64) :
    ∃ call s', s.serve req = some (call, s') ∧ call.request = req ∧
      Represents (log ++ [call]) s' := by
  cases req with
  | new t =>
    exact ⟨_, _, by rw [CryptoServer.serve, hs.hasherNew_eq h]; rfl, rfl, hs.new hL h t⟩
  | update ctx data =>
    by_cases hlive : ∃ t, log.Live ctx t
    · obtain ⟨t, ht⟩ := hlive
      exact ⟨_, _, by rw [CryptoServer.serve, hs.hasherUpdate_live hL ht]; rfl, rfl,
        hs.update ht data⟩
    · have hrefused := ((hs.isolated hL).refused (not_exists.mp hlive)).1 data
      exact ⟨_, _, by rw [CryptoServer.serve, hrefused]; rfl, rfl,
        hs.void (HasherLog.void_update _ _ _)⟩
  | finalize ctx =>
    by_cases hlive : ∃ t, log.Live ctx t
    · obtain ⟨t, ht⟩ := hlive
      exact ⟨_, _, by rw [CryptoServer.serve, hs.hasherFinalize_live ht]; rfl, rfl,
        hs.finalize ht _⟩
    · have hrefused := ((hs.isolated hL).refused (not_exists.mp hlive)).2
      exact ⟨_, _, by rw [CryptoServer.serve, hrefused]; rfl, rfl,
        hs.void (HasherLog.void_finalize _ _)⟩

/-- A run is answered request by request. -/
theorem run (hL : L.Stream) (reqs : List HasherRequest) (hs : Represents log s)
    (h : log.issued.length + reqs.countP HasherRequest.isNew < 2 ^ 64) :
    ∃ log' s', CryptoServer.run reqs log s = some (log ++ log', s') ∧
      log'.map HasherCall.request = reqs ∧ Represents (log ++ log') s' := by
  induction reqs generalizing log s with
  | nil => exact ⟨[], s, by rw [List.append_nil]; rfl, rfl, by rwa [List.append_nil]⟩
  | cons req reqs ih =>
    rw [List.countP_cons] at h
    have hcount : [req].countP HasherRequest.isNew = if req.isNew then 1 else 0 := by
      simp [List.countP_cons]
    obtain ⟨call, s', hserve, hreq, hs'⟩ := hs.step hL req (by rw [hcount]; omega)
    have hlen : (HasherLog.issued [call]).length = if req.isNew then 1 else 0 := by
      rw [← hreq]
      cases call <;> rfl
    obtain ⟨log', s'', hrun, hmap, hs''⟩ := ih hs' (by
      rw [HasherLog.issued_snoc, List.length_append, hlen]
      omega)
    refine ⟨call :: log', s'', ?_, by simp [hreq, hmap], by simpa using hs''⟩
    rw [CryptoServer.run, hserve]
    simpa using hrun

end Represents

end

/-! ## Sessions -/

/-- **Sessions are isolated.** Behind every sequence of requests the server answers the next one
by the history of its id alone, and it has not panicked. -/
theorem sessions_isolated (hL : L.Stream) (reqs : List HasherRequest)
    (h : reqs.countP HasherRequest.isNew < 2 ^ 64) :
    ∃ log s, CryptoServer.run reqs [] (CryptoServer.new : CryptoServer L) = some (log, s) ∧
      log.map HasherCall.request = reqs ∧ Isolated log s := by
  obtain ⟨log, s, hrun, hmap, hs⟩ := (represents_new (L := L)).run hL reqs
    (by simpa [HasherLog.issued] using h)
  exact ⟨log, s, hrun, hmap, hs.isolated hL⟩

/-- A library that knows one digest, that of `abc`. -/
def knowing (digest : Bytes) : HashLibrary where
  State := Bytes
  update s data := s ++ data
  finalize s := if s = [0x61, 0x62, 0x63] then digest else []

theorem knowing_streams (digest : Bytes) : (knowing digest).Streams :=
  ⟨List.append_nil, List.append_assoc⟩

/-- SHA-256 of `abc`. -/
def sha256Abc : Bytes :=
  [0xBA, 0x78, 0x16, 0xBF, 0x8F, 0x01, 0xCF, 0xEA, 0x41, 0x41, 0x40, 0xDE, 0x5D, 0xAE, 0x22, 0x23,
    0xB0, 0x03, 0x61, 0xA3, 0x96, 0x17, 0x7A, 0x9C, 0xB4, 0x10, 0xFF, 0x61, 0xF2, 0x00, 0x15,
    0xAD]

/-- RIPEMD-160 of `abc`. -/
def ripemd160Abc : Bytes :=
  [0x8E, 0xB2, 0x08, 0xF7, 0xE0, 0x5D, 0x98, 0x7A, 0x9B, 0x04, 0x4A, 0x8E, 0x98, 0xC6, 0xB0, 0x87,
    0xF1, 0x5A, 0x0B, 0xFC]

/-- The digests of `abc`; BLAKE2b is not asked for one. -/
def abcLibraries : HashLibraries where
  blake2b := knowing []
  blake2bBuild _ _ := []
  sha256 := knowing sha256Abc
  sha256New := []
  ripemd160 := knowing ripemd160Abc
  ripemd160New := []

/-- Two sessions with their updates interleaved. -/
def abcRequests : List HasherRequest :=
  [.new .sha256, .update ⟨0⟩ [0x61], .new .ripemd160, .update ⟨1⟩ [0x61, 0x62],
    .update ⟨0⟩ [0x62, 0x63], .update ⟨1⟩ [0x63], .finalize ⟨2⟩]

theorem sessions_isolated_abc :
    ∃ log s, CryptoServer.run abcRequests [] (CryptoServer.new : CryptoServer abcLibraries) =
        some (log, s) ∧
      (∃ s', s.hasherFinalize ⟨0⟩ = some (.ok sha256Abc, s')) ∧
      ∃ s', s.hasherFinalize ⟨1⟩ = some (.ok ripemd160Abc, s') := by
  obtain ⟨log, s, hrun, -, hs⟩ := sessions_isolated (L := abcLibraries)
    ⟨knowing_streams _, knowing_streams _, knowing_streams _⟩ abcRequests (by decide)
  have hlog : log = [.new .sha256 ⟨0⟩, .update ⟨0⟩ [0x61] (.ok ()), .new .ripemd160 ⟨1⟩,
      .update ⟨1⟩ [0x61, 0x62] (.ok ()), .update ⟨0⟩ [0x62, 0x63] (.ok ()),
      .update ⟨1⟩ [0x63] (.ok ()), .finalize ⟨2⟩ (.error .invalidContext)] :=
    congrArg Prod.fst (Option.some.inj hrun).symm
  have hopen : ∀ ctx, ¬ log.Finalized ctx := by
    rintro ctx ⟨digest, h⟩
    rw [hlog] at h
    simp at h
  have hsha256 := @Isolated.finalize _ _ _ hs ⟨0⟩ .sha256 ⟨by rw [hlog]; decide, hopen _⟩
  have hripemd160 := @Isolated.finalize _ _ _ hs ⟨1⟩ .ripemd160 ⟨by rw [hlog]; decide, hopen _⟩
  rw [hlog] at hsha256 hripemd160
  exact ⟨log, s, hrun, hsha256, hripemd160⟩

end CkbScriptIpc
