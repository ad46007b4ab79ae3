import CkbScriptIpc.NativeSession
import CkbScriptIpc.Interaction.Remote

/-!
# Any client

A client may choose its next request by what came back for the ones before it, and make as many
as it likes. Here it is any program over `Ask`, and the service that it has in mind is one nearby,
without a channel in between.

* `session_transparent`: what holds of the client with the service nearby holds of it at the other
  end of the pipes, in every interleaving;
* `native_session_transparent`: and at the other end of the channels of `spawn_server`, in every
  schedule of the two threads.
-/

namespace CkbScriptIpc

open Interaction

variable {X Y W Req Resp σ α : Type}

section

variable [Allocator]

/-! ## The service nearby -/

/-- What comes back for a request. -/
abbrev AskRes (Req Resp : Type) : Ask Req → Type := fun _ => Except IpcError (Received Resp)

/-- A service without a channel in between: its state, what it has been asked, and whether it has
reported a failure. Behind a failure it is gone. -/
structure Nearby (Req Resp σ : Type) where
  service : σ
  log : List (Req × Except IpcError Resp)
  closed : Bool

section

variable [Serde Req] [Serde Resp] (answer : σ → Req → Except IpcError Resp × σ)

namespace Nearby

def ask (w : Nearby Req Resp σ) (a : Ask Req) :
    Except IpcError (Received Resp) × Nearby Req Resp σ :=
  match a.payload with
  | none => (.error .serializeError, w)
  | some payload =>
    if w.closed then (.error .generalIoError, w)
    else
      let r := reply answer w.service payload
      (a.seen r.sent, ⟨r.state, w.log ++ r.asked, r.failed⟩)

/-- The replies that are still to come, when `as` are still to be asked. -/
def rest (w : Nearby Req Resp σ) (as : List (Ask Req)) : List (Incoming × Reply Req Resp σ) :=
  if w.closed then []
  else replies answer w.service ((as.filterMap Ask.payload).map Ask.incoming)

end Nearby

/-- Who asks the service nearby. A request behind a failure may be ruled out. -/
def nearby (goesOn : Prop) : Env (AskRes Req Resp) (Nearby Req Resp σ) where
  pre w _ := w.closed = true → goesOn
  step w a result w' := result = (w.ask answer a).1 ∧ w' = (w.ask answer a).2

end

namespace Nearby

variable [Serde Req] [Serde Resp] {answer : σ → Req → Except IpcError Resp × σ}
  {w : Nearby Req Resp σ} {a : Ask Req} {as : List (Ask Req)} {payload : Vec}

theorem ask_unsent (ha : a.payload = none) : w.ask answer a = (.error .serializeError, w) := by
  simp only [ask, ha]

theorem ask_closed (ha : a.payload = some payload) (hw : w.closed = true) :
    w.ask answer a = (.error .generalIoError, w) := by
  simp only [ask, ha, hw, ↓reduceIte]

/-- The service, once it has replied to a request. -/
def replied (w : Nearby Req Resp σ) (r : Reply Req Resp σ) : Nearby Req Resp σ :=
  ⟨r.state, w.log ++ r.asked, r.failed⟩

theorem ask_open (ha : a.payload = some payload) (hw : w.closed = false) :
    w.ask answer a = (a.seen (reply answer w.service payload).sent,
      w.replied (reply answer w.service payload)) := by
  simp only [ask, ha, hw, Bool.false_eq_true, ↓reduceIte]
  rfl

/-- A service that does not fail, and a codec that carries what it is asked and what it says. -/
theorem ask_travels {req : Req} {resp : Resp} {st : σ} (hreq : RoundTrips req)
    (hresp : RoundTrips resp) (hanswer : answer w.service req = (.ok resp, st))
    (hw : w.closed = false) : w.ask answer (.call req) =
      (.ok (.value resp), ⟨st, w.log ++ [(req, .ok resp)], false⟩) := by
  obtain ⟨v, hv, hslice⟩ := Option.bind_eq_some_iff.mp hreq
  obtain ⟨v', hv', hslice'⟩ := Option.bind_eq_some_iff.mp hresp
  have hreply : reply answer w.service v = ⟨.ok v', [(req, .ok resp)], st⟩ := by
    simp only [reply, hslice, hanswer, responsePayload, hv', Option.elim]
  have hpayload : (Ask.call req).payload = some v := hv
  rw [ask_open hpayload hw, hreply]
  simp only [Ask.seen, hslice']
  rfl

theorem rest_nil : w.rest answer [] = [] := by
  rw [rest]
  exact ite_self _

theorem rest_closed (hw : w.closed = true) : w.rest answer as = [] := if_pos hw

theorem rest_unsent (ha : a.payload = none) : w.rest answer (a :: as) = w.rest answer as := by
  rw [rest, rest, List.filterMap_cons_none ha]

theorem rest_open (ha : a.payload = some payload) (hw : w.closed = false) :
    w.rest answer (a :: as) = (Ask.incoming payload, reply answer w.service payload) ::
      (w.replied (reply answer w.service payload)).rest answer as := by
  rw [rest, hw, List.filterMap_cons_some ha]
  rfl

end Nearby

theorem nearby_step [Serde Req] [Serde Resp] {answer : σ → Req → Except IpcError Resp × σ}
    {goesOn : Prop} {w w' : Nearby Req Resp σ} {a : Ask Req}
    {result : Except IpcError (Received Resp)} (h : w.ask answer a = (result, w')) :
    (nearby answer goesOn).step w a result w' :=
  ⟨congrArg Prod.fst h.symm, congrArg Prod.snd h.symm⟩

theorem nearby_determined [Serde Req] [Serde Resp] (answer : σ → Req → Except IpcError Resp × σ)
    (goesOn : Prop) : (nearby answer goesOn).Determined := by
  rintro w a r w' r' w'' ⟨rfl, rfl⟩ ⟨rfl, rfl⟩
  exact ⟨rfl, rfl⟩

/-- A failure is one of the first reply, or of those behind it. -/
theorem failure_cons {q : Incoming} {r : Reply Req Resp σ}
    {xs : List (Incoming × Reply Req Resp σ)} :
    failure ((q, r) :: xs) ≠ none ↔ r.failed = true ∨ failure xs ≠ none := by
  cases hr : r.sent with
  | error e =>
    rw [failure_error hr, Reply.failed, hr]
    exact iff_of_true (Option.some_ne_none e) (.inl rfl)
  | ok payload =>
    rw [failure_ok hr, Reply.failed, hr]
    exact (or_iff_right Bool.false_ne_true).symm

/-! ## The channel of the client -/

section

variable {R V : Type} [Read R] [Write V] [Serde Req] [Serde Resp] {E : Env (IoRes X Y) W}
  {At : List (Event X Y) → Channel R V → W → Prop} {Gone : Channel R V → W → Prop}
  {answer : σ → Req → Except IpcError Resp × σ} {failing goesOn : Prop}
  {all : List (Req × Except IpcError Resp)} {v : Nearby Req Resp σ × List (Ask Req)}
  {a : Ask Req} {as : List (Ask Req)} {s : Channel R V} {w : W} {st : σ}

/-- How the channel of a client stands when the server has ended, as it does in a session that is
`failing`. -/
structure Forsaken (Req Resp : Type) [Serde Req] [Serde Resp] (E : Env (IoRes X Y) W)
    (At : List (Event X Y) → Channel R V → W → Prop) (Gone : Channel R V → W → Prop)
    (failing goesOn : Prop) : Prop where
  gone : ∀ {s w}, failing → At [] s w → Gone s w
  asks : goesOn → ∀ {a : Ask Req} {payload s w}, a.payload = some payload → Gone s w →
    Always E (returns fun (r : Except IpcError (Received Resp) × Channel R V) w' =>
      r.1 = .error .generalIoError ∧ Gone r.2 w') (Channel.ask a s) w

/-- The session in which `as` are asked is one that a client may have had with the service nearby,
with `Q` at the end. -/
def Agreed (answer : σ → Req → Except IpcError Resp × σ) (st : σ) (as : List (Ask Req))
    (Q : Nearby Req Resp σ → Prop) : Prop :=
  let xs := replies answer st ((as.filterMap Ask.payload).map Ask.incoming)
  ∃ w : Nearby Req Resp σ, Q w ∧ w.log = questions (xs.map sessionRound) ∧
    (w.closed = true ↔ failure xs ≠ none)

/-- The channel has the rest of the session in front of it. -/
structure Facing (At : List (Event X Y) → Channel R V → W → Prop) (Gone : Channel R V → W → Prop)
    (answer : σ → Req → Except IpcError Resp × σ) (failing : Prop)
    (all : List (Req × Except IpcError Resp)) (v : Nearby Req Resp σ × List (Ask Req))
    (s : Channel R V) (w : W) : Prop where
  log : v.1.log ++ questions ((v.1.rest answer v.2).map sessionRound) = all
  opened : v.1.closed = false → At (clientEvents ((v.1.rest answer v.2).map sessionRound)) s w
  closed : v.1.closed = true → Gone s w
  failing : failing ↔ v.1.closed = true ∨ failure (v.1.rest answer v.2) ≠ none

/-- A reply is one step of the session. -/
theorem Facing.replied {w₀ : Nearby Req Resp σ} {payload : Vec} {s' : Channel R V} {w' : W}
    (hf : Forsaken Req Resp E At Gone failing goesOn) (ha : a.payload = some payload)
    (hopen : w₀.closed = false) (h : Facing At Gone answer failing all (w₀, a :: as) s w)
    (hat : At (clientEvents (((w₀.replied (reply answer w₀.service payload)).rest answer as).map
      sessionRound)) s' w') :
    Facing At Gone answer failing all (w₀.replied (reply answer w₀.service payload), as) s' w' := by
  obtain ⟨hlog, -, -, hfailing⟩ := h
  rw [Nearby.rest_open ha hopen] at hlog hfailing
  rw [hopen, or_iff_right Bool.false_ne_true, failure_cons] at hfailing
  refine ⟨?_, fun _ => hat, fun hclosed => ?_, hfailing⟩
  · rw [← hlog]
    exact List.append_assoc _ _ _
  · rw [Nearby.rest_closed hclosed] at hat
    exact hf.gone (hfailing.mpr (.inl hclosed)) hat

/-- A request through the channel is one to the service nearby. -/
theorem ask_facing (h : Channel.Follows E At) (hf : Forsaken Req Resp E At Gone failing goesOn)
    (hanswer : ∀ st req, (answer st req).1 ≠ .error (.protocolError .ok))
    (hpre : (nearby answer goesOn).foretold.pre v a)
    (hv : Facing At Gone answer failing all v s w) :
    Always E (returns fun r w' => ∃ v', (nearby answer goesOn).foretold.step v a r.1 v' ∧
      Facing At Gone answer failing all v' r.2 w') (Channel.ask a s) w := by
  obtain ⟨w₀, as₀⟩ := v
  obtain ⟨hpre, as, rfl⟩ := hpre
  cases ha : a.payload with
  | none =>
    rw [Channel.ask_unsent ha]
    obtain ⟨hlog, hopened, hclosed, hfailing⟩ := hv
    rw [Nearby.rest_unsent ha] at hlog hopened hfailing
    exact .ret ⟨(w₀, as), ⟨nearby_step (Nearby.ask_unsent ha), rfl⟩,
      hlog, hopened, hclosed, hfailing⟩
  | some payload =>
    cases hopen : w₀.closed with
    | true =>
      refine (hf.asks (hpre hopen) ha (hv.closed hopen)).mono (returns_mono ?_)
      rintro ⟨_, s'⟩ w' ⟨rfl, hgone⟩
      obtain ⟨hlog, -, -, hfailing⟩ := hv
      rw [Nearby.rest_closed hopen] at hlog hfailing
      refine ⟨(w₀, as), ⟨nearby_step (Nearby.ask_closed ha hopen), rfl⟩, ?_, fun h => ?_,
        fun _ => hgone, ?_⟩
      · rw [Nearby.rest_closed hopen]
        exact hlog
      · cases hopen.symm.trans h
      · rw [Nearby.rest_closed hopen]
        exact hfailing
    | false =>
      have hat := hv.opened hopen
      rw [Nearby.rest_open ha hopen, List.map_cons, clientEvents] at hat
      refine (Channel.ask_seen h ha hat (Channel.reply_told hanswer _ payload)).mono
        (returns_mono ?_)
      rintro ⟨_, s'⟩ w' ⟨rfl, hat'⟩
      exact ⟨(w₀.replied (reply answer w₀.service payload), as),
        ⟨nearby_step (Nearby.ask_open ha hopen), rfl⟩, hv.replied hf ha hopen hat'⟩

/-- **Client.** What holds of it with the service nearby holds of it with the channel. -/
theorem via_follows (h : Channel.Follows E At) (hf : Forsaken Req Resp E At Gone failing goesOn)
    (hanswer : ∀ st req, (answer st req).1 ≠ .error (.protocolError .ok))
    (hfailing : failing ↔
      failure (replies answer st ((as.filterMap Ask.payload).map Ask.incoming)) ≠ none)
    {Q : α → Nearby Req Resp σ → Prop} {p : Prog (AskRes Req Resp) α}
    (hp : Always (nearby answer goesOn).foretold (fun o v => returns Q o v.1 ∧ v.2 = []) p
      (⟨st, [], false⟩, as))
    (hs : At (clientEvents ((replies answer st
      ((as.filterMap Ask.payload).map Ask.incoming)).map sessionRound)) s w) :
    Always E (returns fun r w' => Agreed answer st as (Q r.1) ∧ (At [] r.2 w' ∨ Gone r.2 w'))
      (p.via Channel.ask s) w := by
  have hreturns : Always (nearby answer goesOn).foretold
      (returns fun a v => Q a v.1 ∧ v.2 = []) p (⟨st, [], false⟩, as) := by
    refine hp.mono ?_
    rintro (a | _) v ⟨hq, hv⟩
    · exact ⟨hq, hv⟩
    · exact hq.elim
  have hstart : Facing At Gone answer failing (questions ((replies answer st
      ((as.filterMap Ask.payload).map Ask.incoming)).map sessionRound)) (⟨st, [], false⟩, as) s w :=
    ⟨List.nil_append _, fun _ => hs, nofun, hfailing.trans (or_iff_right Bool.false_ne_true).symm⟩
  refine (always_via (fun hpre hv => ask_facing h hf hanswer hpre hv) hreturns hstart).mono
    (returns_mono ?_)
  rintro ⟨a, s'⟩ w' ⟨⟨v, as'⟩, ⟨hq, hv⟩, hfacing⟩
  obtain rfl : as' = [] := hv
  obtain ⟨hlog, hopened, hclosed, hclosing⟩ := hfacing
  rw [Nearby.rest_nil] at hlog hopened hclosing
  refine ⟨⟨v, hq, (List.append_nil _).symm.trans hlog, ?_⟩, ?_⟩
  · rw [← hfailing, hclosing]
    exact (or_iff_left fun h => h rfl).symm
  · cases hopen : v.closed with
    | false => exact .inl (hopened hopen)
    | true => exact .inr (hclosed hopen)

end

/-! ## Both together -/

section

variable [Serde Req] [Serde Resp]

/-- When the server is gone, so is the channel. -/
theorem native_forsaken {failing : Prop} :
    Forsaken Req Resp (messaging failing : Env (IoRes X Y) (List (Event X Y)))
      (fun L (s : Channel Native.Pipe Native.Pipe) w => Native.ClientIdle s ∧ w = L)
      (fun s w => failing ∧ s.writer.inner.Open ∧ w = []) failing True where
  gone hfailing h := ⟨hfailing, h.1.writer, h.2⟩
  asks := by
    rintro - a payload s w ha ⟨hfailing, hw, rfl⟩
    refine (Native.ask_alone hfailing ha hw).mono ?_
    rintro (⟨e | _, s'⟩ | _) w ho
    · obtain ⟨rfl, hw', rfl⟩ := ho
      exact ⟨rfl, hfailing, hw', rfl⟩
    · exact ho.elim
    · exact ho.elim

/-- A client with pipes in between. -/
theorem via_paced {answer : σ → Req → Except IpcError Resp × σ}
    (hanswer : ∀ st req, (answer st req).1 ≠ .error (.protocolError .ok)) {st : σ}
    {p : Prog (AskRes Req Resp) α} {Q : α → Nearby Req Resp σ → Prop}
    (hp : Always (nearby answer False) (returns Q) p ⟨st, [], false⟩) (k : Nat) :
    ∃ as, Always (paced (X := X) (Y := Y)) (returns fun r L => Agreed answer st as (Q r.1) ∧ L = [])
      (p.via Channel.ask (Channel.new k Source.mk Sink.mk))
      (clientEvents ((replies answer st
        ((as.filterMap Ask.payload).map Ask.incoming)).map sessionRound)) := by
  obtain ⟨as, has⟩ := always_foretold (nearby_determined answer False) hp
  refine ⟨as, always_paced ?_ (send_nil_notMem_client _)⟩
  have hf : Forsaken Req Resp (scripted (X := X) (Y := Y))
      (fun L (s : Channel Source Sink) w => s.Clear ∧ w = L) (fun s w => s.Clear ∧ w = [])
      (failure (replies answer st ((as.filterMap Ask.payload).map Ask.incoming)) ≠ none) False :=
    ⟨fun _ h => h, False.elim⟩
  refine (via_follows Channel.follows_scripted hf hanswer .rfl has
    ⟨Channel.new_clear k, rfl⟩).mono (returns_mono ?_)
  rintro r w ⟨hr, hs | hs⟩
  · exact ⟨hr, hs.2⟩
  · exact ⟨hr, hs.2⟩

/-- **Pipes are transparent.** Whatever holds of a client program when the service is nearby and
answers at once holds of it at the other end of the pipes, in every interleaving; what the service
is asked is the same. -/
theorem session_transparent (answer : σ → Req → Except IpcError Resp × σ)
    (hanswer : ∀ st req, (answer st req).1 ≠ .error (.protocolError .ok)) (st : σ)
    (p : Prog (AskRes Req Resp) α) (Q : α → Nearby Req Resp σ → Prop)
    (hp : Always (nearby answer False) (returns Q) p ⟨st, [], false⟩) (k l : Nat) :
    ∃ as : List (Ask Req),
      let xs := replies answer st ((as.filterMap Ask.payload).map Ask.incoming)
      Converses answer (p.via Channel.ask (Channel.new k Source.mk Sink.mk) : Prog (IoRes X Y) _)
        (Channel.execute served (Channel.new l Source.mk Sink.mk)) st
        (questions (xs.map sessionRound)) (failure xs).isNone
        (fun r => Agreed answer st as (Q r.1)) (Ended xs) := by
  obtain ⟨as, has⟩ := via_paced hanswer hp k
  exact ⟨as, session_converses l has⟩

end

end

section

attribute [local instance] Allocator.ample Lowercase.ascii Service.requestCodec
  Service.responseCodec

def greetAsk (n : Nat) : Ask (Service.world.Request Bytes) :=
  .call (Service.hello (if n = 0 then "world" else "error")).request

/-- A client that goes on until it fails, and counts what succeeds. -/
def greetUntil : Prog (AskRes (Service.world.Request Bytes)
    (Service.world.Response (Except UInt64 Bytes))) Nat :=
  Prog.iter (fun n => .call (greetAsk n) fun
    | .ok _ => .ret (.inl (n + 1))
    | .error _ => .ret (.inr n)) 0

theorem greeted : (Nearby.ask greet ⟨0, [], false⟩ (greetAsk 0)).1.toBool = true ∧
    (Nearby.ask greet ⟨0, [], false⟩ (greetAsk 0)).2.closed = false ∧
    (Nearby.ask greet (Nearby.ask greet ⟨0, [], false⟩ (greetAsk 0)).2
      (greetAsk 1)).1.toBool = false := by
  decide +kernel

/-- Nearby it has one success. -/
theorem greetUntil_nearby (goesOn : Prop) :
    Always (nearby greet goesOn) (returns fun n _ => n = 1) greetUntil ⟨0, [], false⟩ := by
  obtain ⟨hfirst, hopen, hsecond⟩ := greeted
  refine .loop (.call nofun ?_)
  rintro r w ⟨rfl, rfl⟩
  generalize (Nearby.ask greet ⟨0, [], false⟩ (greetAsk 0)).2 = w at hopen hsecond
  cases hr : (Nearby.ask greet ⟨0, [], false⟩ (greetAsk 0)).1 with
  | error e =>
    rw [hr] at hfirst
    cases hfirst
  | ok x =>
    refine .loop (.call (fun h => ?_) ?_)
    · cases hopen.symm.trans h
    · rintro r w' ⟨rfl, rfl⟩
      cases hr' : (Nearby.ask greet w (greetAsk 1)).1 with
      | error e => exact .ret rfl
      | ok y =>
        rw [hr'] at hsecond
        cases hsecond

theorem greetUntil_transparent :
    ∃ as : List (Ask (Service.world.Request Bytes)),
      let xs := replies greet 0 ((as.filterMap Ask.payload).map Ask.incoming)
      Converses greet
        (greetUntil.via Channel.ask (Channel.new 8 Source.mk Sink.mk) : Prog (IoRes Unit Unit) _)
        (Channel.execute served (Channel.new 8 Source.mk Sink.mk)) 0
        (questions (xs.map sessionRound)) (failure xs).isNone
        (fun r => Agreed greet 0 as fun _ => r.1 = 1) (Ended xs) :=
  session_transparent greet greet_told 0 greetUntil _ (greetUntil_nearby False) 8 8

end

section

variable [Allocator] [Serde Req] [Serde Resp]

/-- **The channels of `spawn_server` are transparent**, in every schedule of the two threads and
all read sizes that the host can allocate. The client may also go on behind a failure, when the
server is gone. -/
theorem native_session_transparent (answer : σ → Req → Except IpcError Resp × σ)
    (hanswer : ∀ st req, (answer st req).1 ≠ .error (.protocolError .ok)) (st : σ)
    (p : Prog (AskRes Req Resp) α) (Q : α → Nearby Req Resp σ → Prop)
    (hp : Always (nearby answer True) (returns Q) p ⟨st, [], false⟩) (k l : Nat)
    (sizes : Native.Sizes) (hsizes : sizes.Granted) :
    ∃ as : List (Ask Req),
      let xs := replies answer st ((as.filterMap Ask.payload).map Ask.incoming)
      let (client, server) := Native.spawnServer k l sizes
      Inevitable (Hosted.Step answer) (Met (questions (xs.map sessionRound))
          (fun r => Agreed answer st as (Q r.1)) (Ended xs))
        ⟨⟨p.via Channel.ask client, Channel.execute served server⟩, st, []⟩ := by
  obtain ⟨as, has⟩ := always_foretold (nearby_determined answer True) hp
  refine ⟨as, meet _ (gives_replies st _) ?_
    (Native.server_follows answer st _ hsizes (Native.serverIdle_spawned k l sizes))⟩
  refine (via_follows Native.follows_pipes native_forsaken hanswer ?_ has
    ⟨Native.clientIdle_spawned k l sizes, rfl⟩).mono (returns_mono ?_)
  · rw [← Bool.not_eq_true, Option.isNone_iff_eq_none]
  · rintro r w ⟨hr, hs | hs⟩
    · exact ⟨hr, hs.2⟩
    · exact ⟨hr, hs.2.2⟩

end

section

attribute [local instance] Allocator.ample Lowercase.ascii Service.requestCodec
  Service.responseCodec

theorem greetUntil_native :
    ∃ as : List (Ask (Service.world.Request Bytes)),
      let xs := replies greet 0 ((as.filterMap Ask.payload).map Ask.incoming)
      let (client, server) := Native.spawnServer 8 8 Native.kilobyte
      Inevitable (Hosted.Step greet) (Met (questions (xs.map sessionRound))
          (fun r => Agreed greet 0 as fun _ => r.1 = 1) (Ended xs))
        ⟨⟨greetUntil.via Channel.ask client, Channel.execute served server⟩, 0, []⟩ :=
  native_session_transparent greet greet_told 0 greetUntil _ (greetUntil_nearby True) 8 8
    Native.kilobyte Native.kilobyte_granted

end

end CkbScriptIpc
