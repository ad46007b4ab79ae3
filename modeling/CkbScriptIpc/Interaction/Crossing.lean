import CkbScriptIpc.Interaction.Meeting

/-!
# Crossing messages

Two threads as in `Meeting`, of which the first one sends again instead of receiving the last
reply. Then each waits for the other to receive.

* `cross`: whatever the order of the steps, the two come to a deadlock, and the service has
  answered what belongs to the requests that were received.
-/

namespace Interaction

variable {X Y ε σ α β : Type}

/-- The program waits for the other one to receive what it sends. -/
def AboutToSend (p : Prog (StreamOp.Res (X := X) ε Y) α) : Prop :=
  ∃ m k, p = .call (.write m) k

/-- Each waits for the other one to receive, neither is gone, and nothing can be done. -/
structure Deadlocked (answer : σ → X → Y × σ) (c : Hosted X Y ε α β σ) : Prop where
  /-- The client waits for the server to receive. -/
  client : AboutToSend c.client
  /-- The server waits for the client to receive. -/
  server : AboutToSend c.server
  /-- No step is left. -/
  stuck : ∀ c', ¬ Hosted.Step answer c c'

/-- A program that waits to be heard is not gone. -/
theorem AboutToSend.not_gone {p : Prog (StreamOp.Res (X := X) ε Y) α} (h : AboutToSend p) :
    ¬ Gone p := by
  obtain ⟨m, k, rfl⟩ := h
  rintro ⟨_ | _, ho⟩ <;> cases ho

/-- Two that send at the same time wait for each other. -/
theorem deadlocked_of_writes {answer : σ → X → Y × σ} {m m' : Bytes}
    {k : Except ε Nat → Prog (StreamOp.Res (X := X) ε Y) α}
    {k' : Except ε Nat → Prog (StreamOp.Res (X := X) ε Y) β} {st : σ} {log : List (X × Y)} :
    Deadlocked answer ⟨⟨.call (.write m) k, .call (.write m') k'⟩, st, log⟩ := by
  have hclient : AboutToSend (.call (.write m) k) := ⟨m, k, rfl⟩
  have hserver : AboutToSend (.call (.write m') k') := ⟨m', k', rfl⟩
  refine ⟨hclient, hserver, fun c' hs => ?_⟩
  cases hs with
  | request hm => cases hm
  | reply hm => cases hm
  | clientAlone hgone _ => exact hserver.not_gone hgone
  | serverAlone hgone _ => exact hclient.not_gone hgone

/-- The environment of a client whose script is followed by a message that is not received. -/
def unreceived : Env (StreamOp.Res (X := X) ε Y) (List (Event X Y)) where
  pre v op := (messaging (ε := ε) False).pre v op ∨ v = [] ∧ ∃ m, op = .write m
  step v op r v' := v ≠ [] ∧ (messaging (ε := ε) False).step v op r v'

/-- A client that follows a script does so also before such a message. -/
theorem always_unreceived {Q : Outcome α → List (Event X Y) → Prop}
    {p : Prog (StreamOp.Res (X := X) ε Y) α} {v : List (Event X Y)}
    (h : Always (messaging False) Q p v) : Always unreceived Q p v := by
  induction h with
  | ret hq => exact .ret hq
  | panic hq => exact .panic hq
  | call hpre _ ih => exact .call (.inl hpre) fun r w' hs => ih r w' hs.2
  | loop _ ih => exact .loop ih

/-- The client's script: it sends the last request, and does not receive the reply. -/
def crossingEvents (rs : List (Round X Y)) (last : Round X Y) : List (Event X Y) :=
  clientEvents rs ++ [.send last.request]

/-- How the scripts of the two fit when `all` is to be asked: they are between two rounds, in one
in which `l` is still to be asked, or in the last. -/
inductive Crossing (answer : σ → X → Y × σ) (stays : Bool) (all : List (X × Y))
    (last : Round X Y) : List (Event X Y) → List (Event X Y) → σ → List (X × Y) → Prop
  | between {st : σ} {log : List (X × Y)} {rs : List (Round X Y)} :
      log ++ questions (rs ++ [last]) = all → Gives answer st (questions (rs ++ [last])) →
      Crossing answer stays all last (crossingEvents rs last)
        (serverEvents stays (rs ++ [last])) st log
  | within {st : σ} {log l : List (X × Y)} {reply : Bytes} {rs : List (Round X Y)} :
      log ++ (l ++ questions (rs ++ [last])) = all →
      Gives answer st (l ++ questions (rs ++ [last])) →
      Crossing answer stays all last (.recv reply :: crossingEvents rs last)
        (serving l reply (serverEvents stays (rs ++ [last]))) st log
  | crossed {st : σ} {log l : List (X × Y)} :
      log ++ l = all → Gives answer st l →
      Crossing answer stays all last [] (serving l last.reply (serverEvents stays [])) st log

section

variable {answer : σ → X → Y × σ} {stays : Bool} {all : List (X × Y)} {last : Round X Y}
  {A : Outcome β → List (Event X Y) → Prop} {B : β → Prop}
  {p p' : Prog (StreamOp.Res (X := X) ε Y) α} {q q' : Prog (StreamOp.Res (X := X) ε Y) β}
  {v₁ v₂ : List (Event X Y)} {st : σ} {log : List (X × Y)}

/-- The client does not return. -/
abbrev ClientCrosses (p : Prog (StreamOp.Res (X := X) ε Y) α) (v : List (Event X Y)) : Prop :=
  Always unreceived (fun _ _ => False) p v

/-- A request is received. -/
theorem crossing_request (hp : ClientCrosses p v₁) (hq : ServerFollows B q v₂)
    (h : Crossing answer stays all last v₁ v₂ st log) (hm : Meets p q p' q') :
    ∃ v₁' v₂', Crossing answer stays all last v₁' v₂' st log ∧
      Moves unreceived (messaging False) p v₁ q v₂ p' v₁' q' v₂' := by
  cases hm
  cases hp with
  | call hpre₁ _ =>
    cases hq with
    | call hpre₂ _ =>
      cases h with
      | @between _ _ rs hlog hgives =>
        cases rs with
        | nil =>
          obtain rfl := hpre₁.resolve_right fun h => nomatch h.1
          have hlog' : log ++ (last.asked ++ []) = all := hlog
          have hgives' : Gives answer st (last.asked ++ []) := hgives
          rw [List.append_nil] at hlog' hgives'
          exact ⟨_, _, .crossed hlog' hgives',
            .inl ⟨.call ⟨nofun, rfl, rfl⟩, .inl (.call ⟨rfl, rfl⟩)⟩⟩
        | cons r rs =>
          obtain rfl := hpre₁.resolve_right fun h => nomatch h.1
          exact ⟨_, _, .within hlog hgives,
            .inl ⟨.call ⟨nofun, rfl, rfl⟩, .inl (.call ⟨rfl, rfl⟩)⟩⟩
      | within _ _ => exact (hpre₁.resolve_right fun h => nomatch h.1).elim
      | @crossed _ _ l _ _ => cases l <;> exact hpre₂.elim

/-- A reply is received. -/
theorem crossing_reply (hp : ClientCrosses p v₁) (hq : ServerFollows B q v₂)
    (h : Crossing answer stays all last v₁ v₂ st log) (hm : Meets q p q' p') :
    ∃ v₁' v₂', Crossing answer stays all last v₁' v₂' st log ∧
      Moves unreceived (messaging False) p v₁ q v₂ p' v₁' q' v₂' := by
  cases hm
  cases hp with
  | call hpre₁ _ =>
    cases hq with
    | call hpre₂ _ =>
      cases h with
      | @between _ _ rs _ _ => cases rs <;> exact hpre₂.elim
      | @within _ _ l reply rs hlog hgives =>
        cases l with
        | cons a l => exact hpre₂.elim
        | nil =>
          cases hpre₂
          exact ⟨_, _, .between hlog hgives,
            .inl ⟨.call ⟨nofun, rfl, rfl⟩, .inl (.call ⟨rfl, rfl⟩)⟩⟩
      | crossed _ _ =>
        obtain ⟨-, _, ⟨⟩⟩ := hpre₁.resolve_left fun h => h.elim

/-- The service is asked. -/
theorem crossing_ask {x : X} {k : Y → Prog (StreamOp.Res (X := X) ε Y) β}
    (hq : ServerFollows B (.call (.ext x) k) v₂)
    (h : Crossing answer stays all last v₁ v₂ st log) :
    ∃ v₂', Crossing answer stays all last v₁ v₂' (answer st x).2 (log ++ [(x, (answer st x).1)]) ∧
      Step (messaging False) (.call (.ext x) k) v₂ (k (answer st x).1) v₂' := by
  cases hq with
  | call hpre _ =>
    cases h with
    | @between _ _ rs _ _ => cases rs <;> exact hpre.elim
    | @within _ _ l reply rs hlog hgives =>
      cases l with
      | nil => exact hpre.elim
      | cons a l =>
        obtain rfl : x = a.1 := hpre
        obtain ⟨ha, hgives⟩ := hgives
        have hlog' :
            log ++ [(a.1, (answer st a.1).1)] ++ (l ++ questions (rs ++ [last])) = all := by
          rw [ha, List.append_assoc]
          exact hlog
        exact ⟨_, .within hlog' hgives, .call ⟨ha, rfl⟩⟩
    | @crossed _ _ l hlog hgives =>
      cases l with
      | nil => exact hpre.elim
      | cons a l =>
        obtain rfl : x = a.1 := hpre
        obtain ⟨ha, hgives⟩ := hgives
        have hlog' : log ++ [(a.1, (answer st a.1).1)] ++ l = all := by
          rw [ha, List.append_assoc]
          exact hlog
        exact ⟨_, .crossed hlog' hgives, .call ⟨ha, rfl⟩⟩

/-- The server stays as long as the client is about to send. -/
theorem crossing_not_gone (hq : ServerFollows B q v₂)
    (h : Crossing answer stays all last v₁ v₂ st log) : ¬ Gone q := by
  rintro ⟨b | _, rfl⟩
  · obtain ⟨-, rfl⟩ := always_outcome (o := .ret b) hq
    generalize hv : ([] : List (Event X Y)) = v₂ at h
    cases h with
    | @between _ _ rs _ _ => cases rs <;> cases hv
    | @within _ _ l _ _ _ _ => cases l <;> cases hv
    | @crossed _ _ l _ _ => cases l <;> cases hv
  · exact (always_outcome (o := .panic) hq).elim

theorem crosses_not_gone (hp : ClientCrosses p v₁) : ¬ Gone p := by
  rintro ⟨o, rfl⟩
  exact always_outcome hp

/-- **The scripts keep fitting each other.** -/
theorem crossing_step {c' : Hosted X Y ε α β σ} (hp : ClientCrosses p v₁)
    (hq : ServerFollows B q v₂) (h : Crossing answer stays all last v₁ v₂ st log)
    (hs : Hosted.Step answer ⟨⟨p, q⟩, st, log⟩ c') :
    ∃ v₁' v₂', Crossing answer stays all last v₁' v₂' c'.service c'.log ∧
      Moves unreceived (messaging False) p v₁ q v₂ c'.client v₁' c'.server v₂' := by
  cases hs with
  | request hm => exact crossing_request hp hq h hm
  | reply hm => exact crossing_reply hp hq h hm
  | client => exact ⟨v₁, v₂, h, .inl ⟨.loop, .inr ⟨rfl, rfl⟩⟩⟩
  | server => exact ⟨v₁, v₂, h, .inr ⟨⟨rfl, rfl⟩, .loop⟩⟩
  | ask =>
    obtain ⟨v₂', h', hs'⟩ := crossing_ask hq h
    exact ⟨v₁, v₂', h', .inr ⟨⟨rfl, rfl⟩, hs'⟩⟩
  | clientAlone hgone _ => exact absurd hgone (crossing_not_gone hq h)
  | serverAlone hgone _ => exact absurd hgone (crosses_not_gone hp)

/-! ## Progress, up to the crossing -/

/-- Where the two wait for each other all has been asked. -/
def Crossed (answer : σ → X → Y × σ) (all : List (X × Y)) (c : Hosted X Y ε α β σ) : Prop :=
  Deadlocked answer c ∧ c.log = all

/-- A server at a call, and a client that sends. -/
theorem crossing_sends {m : Bytes} {k : Except ε Nat → Prog (StreamOp.Res (X := X) ε Y) α}
    (hp : ClientCrosses (.call (.write m) k) v₁) (hq : ServerFollows B q v₂)
    (h : Crossing answer stays all last v₁ v₂ st log) :
    Crossed answer all ⟨⟨.call (.write m) k, q⟩, st, log⟩ ∨
      ∃ c', Hosted.Step answer ⟨⟨.call (.write m) k, q⟩, st, log⟩ c' := by
  have hstays := crossing_not_gone hq h
  cases hq with
  | @ret b _ _ => exact absurd ⟨.ret b, rfl⟩ hstays
  | panic hb => exact hb.elim
  | loop _ => exact .inr ⟨_, .server⟩
  | @call op _ _ hpre₂ _ =>
    cases hp with
    | call hpre₁ _ =>
      cases h with
      | within _ _ => exact (hpre₁.resolve_right fun h => nomatch h.1).elim
      | @between _ _ rs _ _ =>
        cases rs <;> cases op with
        | read n => exact .inr ⟨_, .request .mk⟩
        | _ => exact hpre₂.elim
      | @crossed _ _ l hlog _ =>
        cases l with
        | nil =>
          cases op with
          | write m => exact .inl ⟨deadlocked_of_writes, (List.append_nil log).symm.trans hlog⟩
          | _ => exact hpre₂.elim
        | cons a l =>
          cases op with
          | ext x => exact .inr ⟨_, .ask⟩
          | _ => exact hpre₂.elim

/-- A client that receives meets the server. -/
theorem crossing_receives {n : Nat} {k : Except ε Bytes → Prog (StreamOp.Res (X := X) ε Y) α}
    (hp : ClientCrosses (.call (.read n) k) v₁) (hq : ServerFollows B q v₂)
    (h : Crossing answer stays all last v₁ v₂ st log) :
    ∃ c', Hosted.Step answer ⟨⟨.call (.read n) k, q⟩, st, log⟩ c' := by
  have hstays := crossing_not_gone hq h
  cases hp with
  | call hpre₁ _ =>
    have hpre := hpre₁.resolve_right fun ⟨_, _, h⟩ => nomatch h
    cases h with
    | @between _ _ rs _ _ => cases rs <;> exact hpre.elim
    | crossed _ _ => exact hpre.elim
    | @within _ _ l reply rs _ _ =>
      cases hq with
      | @ret b _ _ => exact absurd ⟨.ret b, rfl⟩ hstays
      | panic hb => exact hb.elim
      | loop _ => exact ⟨_, .server⟩
      | @call op _ _ hpre₂ _ =>
        cases l with
        | nil =>
          cases op with
          | write m => exact ⟨_, .reply .mk⟩
          | _ => exact hpre₂.elim
        | cons a l =>
          cases op with
          | ext x => exact ⟨_, .ask⟩
          | _ => exact hpre₂.elim

theorem crossing_progress (hp : ClientCrosses p v₁) (hq : ServerFollows B q v₂)
    (h : Crossing answer stays all last v₁ v₂ st log) :
    Crossed answer all ⟨⟨p, q⟩, st, log⟩ ∨
      ∃ c', Hosted.Step answer ⟨⟨p, q⟩, st, log⟩ c' := by
  cases hp with
  | ret ha => exact ha.elim
  | panic ha => exact ha.elim
  | loop _ => exact .inr ⟨_, .client⟩
  | @call op k _ hpre hk =>
    cases op with
    | write m => exact crossing_sends (.call hpre hk) hq h
    | read n => exact .inr (crossing_receives (.call hpre hk) hq h)
    | flush =>
      exact absurd (hpre.resolve_right fun ⟨_, _, h⟩ => nomatch h) messaging_not_flush
    | ext x =>
      have hpre := hpre.resolve_right fun ⟨_, _, h⟩ => nomatch h
      cases h with
      | @between _ _ rs _ _ => cases rs <;> exact hpre.elim
      | within _ _ => exact hpre.elim
      | crossed _ _ => exact hpre.elim

/-- **Crossing.** A client that sends two messages in a row deadlocks with a server that replies
to the first, whatever the order of the steps. -/
theorem cross {rs : List (Round X Y)} (hgives : Gives answer st (questions (rs ++ [last])))
    (hp : ClientCrosses p (crossingEvents rs last))
    (hq : ServerFollows B q (serverEvents stays (rs ++ [last]))) :
    Inevitable (Hosted.Step answer) (Crossed answer (questions (rs ++ [last])))
      ⟨⟨p, q⟩, st, []⟩ := by
  have hstart : Crossing answer stays (questions (rs ++ [last])) last (crossingEvents rs last)
      (serverEvents stays (rs ++ [last])) st [] := .between (List.nil_append _) hgives
  refine inevitable_of_moves ?_ hp hq hstart
  intro p v₁ q v₂ st log hp hq h
  rcases crossing_progress hp hq h with hcrossed | hprogress
  · exact .inl hcrossed
  · exact .inr ⟨hprogress, fun c' hs => crossing_step hp hq h hs⟩

end

end Interaction
