import CkbScriptIpc.Interaction.Rendezvous
import CkbScriptIpc.Interaction.Pacing

/-!
# Rendezvous by script

Two threads with a channel in each direction that holds no message, where the second one asks a
service in between. Each thread is proved alone, against a script of the messages that it sends
and receives (`messaging`); the scripts of the same `Round`s fit each other in every
interleaving, and a thread that goes on when the other is gone finds that out.

* `Always.acc`: a program that is total has no infinite run;
* `Hosted.Step.link`: beside the service, the threads do what those of `Rendezvous` do;
* `meet`: whatever the order of the steps, the client returns with what its script gives.
-/

namespace Interaction

variable {X Y ε σ α β : Type}

/-! ## What is bound to happen -/

/-- Every run from `s` comes to a state in `P`, and is not stuck before. -/
inductive Inevitable {S : Type 1} (Step : S → S → Prop) (P : S → Prop) : S → Prop
  | now {s : S} : P s → Inevitable Step P s
  | later {s : S} : (∃ s', Step s s') → (∀ s', Step s s' → Inevitable Step P s') →
      Inevitable Step P s

/-- A program that is total has no infinite run. -/
theorem Always.acc {Op W : Type} {Res : Op → Type} {E : Env Res W} {Q : Outcome α → W → Prop}
    {p : Prog Res α} {w : W} (h : Always E Q p w) :
    Acc (fun c' c : Prog Res α × W => Step E c.1 c.2 c'.1 c'.2) (p, w) := by
  induction h with
  | ret _ => exact .intro _ fun _ hs => by cases hs
  | panic _ => exact .intro _ fun _ hs => by cases hs
  | call _ _ ih =>
    refine .intro _ ?_
    rintro ⟨p', w'⟩ hs
    cases hs with
    | call hs => exact ih _ _ hs
  | loop _ ih =>
    refine .intro _ ?_
    rintro ⟨p', w'⟩ hs
    cases hs with
    | loop => exact ih

/-! ## Two threads and a service -/

/-- A client, a server, the state of the service behind it, and what that has been asked. -/
structure Hosted (X Y ε α β σ : Type) : Type 1 extends Link X Y ε α β where
  service : σ
  log : List (X × Y)

/-- One of the two takes a step, or both do where they meet. -/
inductive Hosted.Step (answer : σ → X → Y × σ) : Hosted X Y ε α β σ → Hosted X Y ε α β σ → Prop
  | request {p p' : Prog (StreamOp.Res (X := X) ε Y) α}
      {q q' : Prog (StreamOp.Res (X := X) ε Y) β} {st : σ} {log : List (X × Y)} :
      Meets p q p' q' → Hosted.Step answer ⟨⟨p, q⟩, st, log⟩ ⟨⟨p', q'⟩, st, log⟩
  | reply {p p' : Prog (StreamOp.Res (X := X) ε Y) α}
      {q q' : Prog (StreamOp.Res (X := X) ε Y) β} {st : σ} {log : List (X × Y)} :
      Meets q p q' p' → Hosted.Step answer ⟨⟨p, q⟩, st, log⟩ ⟨⟨p', q'⟩, st, log⟩
  | client {τ γ : Type} {body : τ → Prog (StreamOp.Res (X := X) ε Y) (τ ⊕ γ)} {s : τ}
      {k : γ → Prog (StreamOp.Res (X := X) ε Y) α} {q : Prog (StreamOp.Res (X := X) ε Y) β}
      {st : σ} {log : List (X × Y)} :
      Hosted.Step answer ⟨⟨.loop body s k, q⟩, st, log⟩ ⟨⟨.unroll body s k, q⟩, st, log⟩
  | server {τ γ : Type} {p : Prog (StreamOp.Res (X := X) ε Y) α}
      {body : τ → Prog (StreamOp.Res (X := X) ε Y) (τ ⊕ γ)} {s : τ}
      {k : γ → Prog (StreamOp.Res (X := X) ε Y) β} {st : σ} {log : List (X × Y)} :
      Hosted.Step answer ⟨⟨p, .loop body s k⟩, st, log⟩ ⟨⟨p, .unroll body s k⟩, st, log⟩
  | ask {p : Prog (StreamOp.Res (X := X) ε Y) α} {x : X}
      {k : Y → Prog (StreamOp.Res (X := X) ε Y) β} {st : σ} {log : List (X × Y)} :
      Hosted.Step answer ⟨⟨p, .call (.ext x) k⟩, st, log⟩
        ⟨⟨p, k (answer st x).1⟩, (answer st x).2, log ++ [(x, (answer st x).1)]⟩
  | clientAlone {p p' : Prog (StreamOp.Res (X := X) ε Y) α}
      {q : Prog (StreamOp.Res (X := X) ε Y) β} {st : σ} {log : List (X × Y)} :
      Gone q → Forsaken p p' → Hosted.Step answer ⟨⟨p, q⟩, st, log⟩ ⟨⟨p', q⟩, st, log⟩
  | serverAlone {p : Prog (StreamOp.Res (X := X) ε Y) α}
      {q q' : Prog (StreamOp.Res (X := X) ε Y) β} {st : σ} {log : List (X × Y)} :
      Gone p → Forsaken q q' → Hosted.Step answer ⟨⟨p, q⟩, st, log⟩ ⟨⟨p, q'⟩, st, log⟩

/-- Apart from the service these are the steps of the two threads. -/
theorem Hosted.Step.link {answer : σ → X → Y × σ} {c c' : Hosted X Y ε α β σ}
    (h : Hosted.Step answer c c') : Link.Step c.toLink c'.toLink := by
  cases h with
  | request hm => exact .request hm
  | reply hm => exact .reply hm
  | client => exact .client .loop
  | server => exact .server .loop
  | ask => exact .server (.ask _)
  | clientAlone hq hf => exact .clientAlone hq hf
  | serverAlone hp hf => exact .serverAlone hp hf

/-! ## Scripts of messages -/

/-- The environment that follows a script, in which every message is sent by one call and
received by one. Behind the script a message meets nobody, if `alone`. -/
def messaging (alone : Prop) : Env (StreamOp.Res (X := X) ε Y) (List (Event X Y)) where
  pre
    | .recv _ :: _, .read _ => True
    | .listen :: _, .read _ => True
    | .send m :: _, .write m' => m' = m
    | .ask x _ :: _, .ext x' => x' = x
    | [], .write _ => alone
    | _, _ => False
  step
    | .recv m :: L, .read _, r, w' => r = .ok m ∧ w' = L
    | .send m :: L, .write _, r, w' => r = .ok m.length ∧ w' = L
    | .ask _ y :: L, .ext _, r, w' => r = y ∧ w' = L
    | [], .write _, r, w' => (∃ e, r = .error e) ∧ w' = []
    | _, _, _, _ => False

theorem messaging_not_flush {alone : Prop} {v : List (Event X Y)} :
    ¬ (messaging (ε := ε) alone).pre v .flush := by
  rcases v with _ | ⟨e, L⟩
  · exact id
  · cases e <;> exact id

/-- How the scripts of the two fit when `all` is to be asked: they are between two rounds, or in
one in which `l` is still to be asked. -/
inductive InTouch (answer : σ → X → Y × σ) (stays : Bool) (all : List (X × Y)) :
    List (Event X Y) → List (Event X Y) → σ → List (X × Y) → Prop
  | between {st : σ} {log : List (X × Y)} {rs : List (Round X Y)} :
      log ++ questions rs = all → Gives answer st (questions rs) →
      InTouch answer stays all (clientEvents rs) (serverEvents stays rs) st log
  | within {st : σ} {log l : List (X × Y)} {reply : Bytes} {rs : List (Round X Y)} :
      log ++ (l ++ questions rs) = all → Gives answer st (l ++ questions rs) →
      InTouch answer stays all (.recv reply :: clientEvents rs)
        (serving l reply (serverEvents stays rs)) st log

/-! ## Steps -/

section

variable {answer : σ → X → Y × σ} {stays : Bool} {all : List (X × Y)} {A : α → Prop}
  {B : β → Prop} {p p' : Prog (StreamOp.Res (X := X) ε Y) α}
  {q q' : Prog (StreamOp.Res (X := X) ε Y) β} {v₁ v₂ : List (Event X Y)} {st st' : σ}
  {log log' : List (X × Y)} {m : Bytes} {n : Nat}

/-- The client follows its script, behind which it may find the server gone. -/
abbrev ClientFollows (stays : Bool) (A : α → Prop) (p : Prog (StreamOp.Res (X := X) ε Y) α)
    (v : List (Event X Y)) : Prop :=
  Always (messaging (stays = false)) (returns fun a L => A a ∧ L = []) p v

abbrev ServerFollows (B : β → Prop) (q : Prog (StreamOp.Res (X := X) ε Y) β)
    (v : List (Event X Y)) : Prop :=
  Always (messaging False) (returns fun b L => B b ∧ L = []) q v

/-- A server that is gone is at the end of its script. -/
theorem nil_of_gone (hq : ServerFollows B q v₂) (hgone : Gone q) : v₂ = [] := by
  obtain ⟨o, rfl⟩ := hgone
  have ho := always_outcome hq
  cases o with
  | ret b => exact ho.2
  | panic => exact ho.elim

/-- Only between two rounds is the end of the server's script. -/
theorem inTouch_nil (h : InTouch answer stays all v₁ [] st log) : v₁ = [] ∧ stays = false := by
  generalize hv : ([] : List (Event X Y)) = v₂ at h
  cases h with
  | @between _ _ rs _ _ =>
    cases rs with
    | cons r rs => cases hv
    | nil =>
      cases stays with
      | true => cases hv
      | false => exact ⟨rfl, rfl⟩
  | @within _ _ l _ _ _ _ => cases l <;> cases hv

/-- A client that is gone has returned, with all that is to be asked. -/
theorem inTouch_returned {a : α} (hp : ClientFollows (ε := ε) stays A (.ret a) v₁)
    (h : InTouch answer stays all v₁ v₂ st log) : A a ∧ log = all := by
  obtain ⟨ha, rfl⟩ := always_outcome (o := .ret a) hp
  refine ⟨ha, ?_⟩
  generalize hv : ([] : List (Event X Y)) = v₁ at h
  cases h with
  | @between _ _ rs hlog _ =>
    cases rs with
    | cons r rs => cases hv
    | nil => exact (List.append_nil log).symm.trans hlog
  | within _ _ => cases hv

/-- The two take a step as their scripts do, or one of them does. -/
def Moves (E₁ E₂ : Env (StreamOp.Res (X := X) ε Y) (List (Event X Y)))
    (p : Prog (StreamOp.Res (X := X) ε Y) α) (v₁ : List (Event X Y))
    (q : Prog (StreamOp.Res (X := X) ε Y) β) (v₂ : List (Event X Y))
    (p' : Prog (StreamOp.Res (X := X) ε Y) α) (v₁' : List (Event X Y))
    (q' : Prog (StreamOp.Res (X := X) ε Y) β) (v₂' : List (Event X Y)) : Prop :=
  Step E₁ p v₁ p' v₁' ∧ (Step E₂ q v₂ q' v₂' ∨ q' = q ∧ v₂' = v₂) ∨
    (p' = p ∧ v₁' = v₁) ∧ Step E₂ q v₂ q' v₂'

/-- A request is received. -/
theorem inTouch_request (hp : ClientFollows stays A p v₁) (hq : ServerFollows B q v₂)
    (h : InTouch answer stays all v₁ v₂ st log) (hm : Meets p q p' q') :
    ∃ v₁' v₂', InTouch answer stays all v₁' v₂' st log ∧
      Moves (messaging (stays = false)) (messaging False) p v₁ q v₂ p' v₁' q' v₂' := by
  cases hm
  cases hp with
  | call hpre₁ _ =>
    cases hq with
    | call hpre₂ _ =>
      cases h with
      | @between _ _ rs hlog hgives =>
        cases rs with
        | nil =>
          obtain rfl : stays = false := hpre₁
          exact hpre₂.elim
        | cons r rs =>
          cases hpre₁
          exact ⟨_, _, .within hlog hgives, .inl ⟨.call ⟨rfl, rfl⟩, .inl (.call ⟨rfl, rfl⟩)⟩⟩
      | within _ _ => exact hpre₁.elim

/-- A reply is received. -/
theorem inTouch_reply (hp : ClientFollows stays A p v₁) (hq : ServerFollows B q v₂)
    (h : InTouch answer stays all v₁ v₂ st log) (hm : Meets q p q' p') :
    ∃ v₁' v₂', InTouch answer stays all v₁' v₂' st log ∧
      Moves (messaging (stays = false)) (messaging False) p v₁ q v₂ p' v₁' q' v₂' := by
  cases hm
  cases hp with
  | call hpre₁ _ =>
    cases hq with
    | call hpre₂ _ =>
      cases h with
      | @between _ _ rs hlog hgives =>
        cases rs with
        | nil => cases stays <;> exact hpre₂.elim
        | cons r rs => exact hpre₂.elim
      | @within _ _ l reply rs hlog hgives =>
        cases l with
        | cons a l => exact hpre₂.elim
        | nil =>
          cases hpre₂
          exact ⟨_, _, .between hlog hgives, .inl ⟨.call ⟨rfl, rfl⟩, .inl (.call ⟨rfl, rfl⟩)⟩⟩

/-- The service is asked. -/
theorem inTouch_ask {x : X} {k : Y → Prog (StreamOp.Res (X := X) ε Y) β}
    (hq : ServerFollows B (.call (.ext x) k) v₂) (h : InTouch answer stays all v₁ v₂ st log) :
    ∃ v₂', InTouch answer stays all v₁ v₂' (answer st x).2 (log ++ [(x, (answer st x).1)]) ∧
      Step (messaging False) (.call (.ext x) k) v₂ (k (answer st x).1) v₂' := by
  cases hq with
  | call hpre _ =>
    cases h with
    | @between _ _ rs hlog hgives =>
      cases rs with
      | nil => cases stays <;> exact hpre.elim
      | cons r rs => exact hpre.elim
    | @within _ _ l reply rs hlog hgives =>
      cases l with
      | nil => exact hpre.elim
      | cons a l =>
        obtain rfl : x = a.1 := hpre
        obtain ⟨ha, hgives⟩ := hgives
        have hlog' : log ++ [(a.1, (answer st a.1).1)] ++ (l ++ questions rs) = all := by
          rw [ha, List.append_assoc]
          exact hlog
        exact ⟨_, .within hlog' hgives, .call ⟨ha, rfl⟩⟩

/-- A client finds that the server is gone. -/
theorem inTouch_alone (hp : ClientFollows stays A p v₁) (hq : ServerFollows B q v₂)
    (h : InTouch answer stays all v₁ v₂ st log) (hgone : Gone q) (hf : Forsaken p p') :
    Step (messaging (stays = false)) p v₁ p' v₁ := by
  obtain rfl := nil_of_gone hq hgone
  obtain ⟨rfl, hstays⟩ := inTouch_nil h
  cases hf with
  | send => exact .call ⟨⟨_, rfl⟩, rfl⟩
  | recv =>
    cases hp with
    | call hpre _ => exact hpre.elim

/-- **The two stay in touch** until the client has returned. -/
theorem inTouch_step {c' : Hosted X Y ε α β σ} (hp : ClientFollows stays A p v₁)
    (hq : ServerFollows B q v₂) (h : InTouch answer stays all v₁ v₂ st log)
    (hbusy : ∀ a, p ≠ .ret a) (hs : Hosted.Step answer ⟨⟨p, q⟩, st, log⟩ c') :
    ∃ v₁' v₂', InTouch answer stays all v₁' v₂' c'.service c'.log ∧
      Moves (messaging (stays = false)) (messaging False) p v₁ q v₂
        c'.client v₁' c'.server v₂' := by
  cases hs with
  | request hm => exact inTouch_request hp hq h hm
  | reply hm => exact inTouch_reply hp hq h hm
  | client => exact ⟨v₁, v₂, h, .inl ⟨.loop, .inr ⟨rfl, rfl⟩⟩⟩
  | server => exact ⟨v₁, v₂, h, .inr ⟨⟨rfl, rfl⟩, .loop⟩⟩
  | ask =>
    obtain ⟨v₂', h', hs'⟩ := inTouch_ask hq h
    exact ⟨v₁, v₂', h', .inr ⟨⟨rfl, rfl⟩, hs'⟩⟩
  | clientAlone hgone hf =>
    exact ⟨v₁, v₂, h, .inl ⟨inTouch_alone hp hq h hgone hf, .inr ⟨rfl, rfl⟩⟩⟩
  | serverAlone hgone _ =>
    obtain ⟨_ | _, rfl⟩ := hgone
    · exact absurd rfl (hbusy _)
    · exact (always_outcome (o := .panic) hp).elim

/-! ## Progress -/

/-- A client that sends meets the server, or the server is gone. -/
theorem inTouch_sends [Inhabited ε] {k : Except ε Nat → Prog (StreamOp.Res (X := X) ε Y) α}
    (hp : ClientFollows stays A (.call (.write m) k) v₁) (hq : ServerFollows B q v₂)
    (h : InTouch answer stays all v₁ v₂ st log) :
    ∃ c', Hosted.Step answer ⟨⟨.call (.write m) k, q⟩, st, log⟩ c' := by
  have hgone : Gone q → ∃ c', Hosted.Step answer ⟨⟨.call (.write m) k, q⟩, st, log⟩ c' :=
    fun hgone => ⟨_, .clientAlone hgone (.send (e := default))⟩
  cases hq with
  | @ret b _ _ => exact hgone ⟨.ret b, rfl⟩
  | panic hb => exact hb.elim
  | loop _ => exact ⟨_, .server⟩
  | @call op _ _ hpre₂ _ =>
    cases hp with
    | call hpre₁ _ =>
      cases h with
      | within _ _ => exact hpre₁.elim
      | @between _ _ rs _ _ =>
        cases rs with
        | nil =>
          obtain rfl : stays = false := hpre₁
          cases op <;> exact hpre₂.elim
        | cons r rs =>
          cases op with
          | read n => exact ⟨_, .request .mk⟩
          | _ => exact hpre₂.elim

/-- A client that receives meets the server. -/
theorem inTouch_receives {k : Except ε Bytes → Prog (StreamOp.Res (X := X) ε Y) α}
    (hp : ClientFollows stays A (.call (.read n) k) v₁) (hq : ServerFollows B q v₂)
    (h : InTouch answer stays all v₁ v₂ st log) :
    ∃ c', Hosted.Step answer ⟨⟨.call (.read n) k, q⟩, st, log⟩ c' := by
  cases hp with
  | call hpre₁ _ =>
    cases h with
    | @between _ _ rs _ _ => cases rs <;> exact hpre₁.elim
    | @within _ _ l reply rs _ _ =>
      cases hq with
      | ret hb =>
        obtain ⟨-, hnil⟩ := hb
        cases l <;> cases hnil
      | panic hb => exact hb.elim
      | loop _ => exact ⟨_, .server⟩
      | @call op _ _ hpre₂ _ =>
        cases l with
        | nil =>
          cases op with
          | write m => exact ⟨_, .reply .mk⟩
          | _ => exact hpre₂.elim
        | cons a l =>
          cases op with
          | ext x => exact ⟨_, .ask⟩
          | _ => exact hpre₂.elim

/-- **Two that are in touch are never stuck** before the client has returned. -/
theorem inTouch_progress [Inhabited ε] (hp : ClientFollows stays A p v₁)
    (hq : ServerFollows B q v₂) (h : InTouch answer stays all v₁ v₂ st log) :
    (∃ a, p = .ret a) ∨ ∃ c', Hosted.Step answer ⟨⟨p, q⟩, st, log⟩ c' := by
  cases hp with
  | @ret a _ _ => exact .inl ⟨a, rfl⟩
  | panic ha => exact ha.elim
  | loop _ => exact .inr ⟨_, .client⟩
  | @call op k _ hpre hk =>
    cases op with
    | write m => exact .inr (inTouch_sends (.call hpre hk) hq h)
    | read n => exact .inr (inTouch_receives (.call hpre hk) hq h)
    | flush => exact absurd hpre messaging_not_flush
    | ext x =>
      cases h with
      | within _ _ => exact hpre.elim
      | @between _ _ rs _ _ => cases rs <;> exact hpre.elim

/-! ## Whole meetings -/

/-- The client has returned with `A` when all has been asked, and a server that has ended has
returned with `B`. -/
def Met (all : List (X × Y)) (A : α → Prop) (B : β → Prop) (c : Hosted X Y ε α β σ) : Prop :=
  (∃ a, c.client = .ret a ∧ A a) ∧ c.log = all ∧ ∀ o : Outcome β, c.server = o.toProg →
    ∃ b, o = .ret b ∧ B b

/-- Two total threads come to `P` when, short of it, one of them can go on, and every step is one
in the views of the two. -/
theorem inevitable_of_moves {E₁ E₂ : Env (StreamOp.Res (X := X) ε Y) (List (Event X Y))}
    {Q₁ : Outcome α → List (Event X Y) → Prop} {Q₂ : Outcome β → List (Event X Y) → Prop}
    {R : List (Event X Y) → List (Event X Y) → σ → List (X × Y) → Prop}
    {P : Hosted X Y ε α β σ → Prop}
    (hturn : ∀ {p v₁ q v₂ st log}, Always E₁ Q₁ p v₁ → Always E₂ Q₂ q v₂ → R v₁ v₂ st log →
      P ⟨⟨p, q⟩, st, log⟩ ∨ (∃ c', Hosted.Step answer ⟨⟨p, q⟩, st, log⟩ c') ∧
        ∀ c', Hosted.Step answer ⟨⟨p, q⟩, st, log⟩ c' →
          ∃ v₁' v₂', R v₁' v₂' c'.service c'.log ∧
            Moves E₁ E₂ p v₁ q v₂ c'.client v₁' c'.server v₂')
    (hp : Always E₁ Q₁ p v₁) (hq : Always E₂ Q₂ q v₂) (h : R v₁ v₂ st log) :
    Inevitable (Hosted.Step answer) P ⟨⟨p, q⟩, st, log⟩ := by
  -- outside by induction on the runs of the client, inside on those of the server
  have hacc₁ := hp.acc
  generalize hc₁ : (p, v₁) = c₁ at hacc₁
  induction hacc₁ generalizing p v₁ q v₂ st log with
  | intro c₁ _ ih₁ =>
    subst hc₁
    have hacc₂ := hq.acc
    generalize hc₂ : (q, v₂) = c₂ at hacc₂
    induction hacc₂ generalizing q v₂ st log with
    | intro c₂ _ ih₂ =>
      subst hc₂
      rcases hturn hp hq h with hdone | ⟨hprogress, hsteps⟩
      · exact .now hdone
      · refine .later hprogress ?_
        rintro ⟨⟨p', q'⟩, st', log'⟩ hs
        obtain ⟨v₁', v₂', h', hmoves⟩ := hsteps _ hs
        rcases hmoves with ⟨hs₁, hs₂ | ⟨rfl, rfl⟩⟩ | ⟨⟨rfl, rfl⟩, hs₂⟩
        · exact ih₁ (p', v₁') hs₁ (always_step hp hs₁) (always_step hq hs₂) h' rfl
        · exact ih₁ (p', v₁') hs₁ (always_step hp hs₁) hq h' rfl
        · exact ih₂ (q', v₂') hs₂ (always_step hq hs₂) h' rfl

theorem inTouch_met [Inhabited ε] (hp : ClientFollows stays A p v₁) (hq : ServerFollows B q v₂)
    (h : InTouch answer stays all v₁ v₂ st log) :
    Inevitable (Hosted.Step answer) (Met all A B) ⟨⟨p, q⟩, st, log⟩ := by
  refine inevitable_of_moves ?_ hp hq h
  intro p v₁ q v₂ st log hp hq h
  by_cases hret : ∃ a, p = .ret a
  · obtain ⟨a, rfl⟩ := hret
    obtain ⟨ha, hlog⟩ := inTouch_returned hp h
    refine .inl ⟨⟨a, rfl, ha⟩, hlog, ?_⟩
    rintro (b | _) rfl
    · exact ⟨b, rfl, (always_outcome (o := .ret b) hq).1⟩
    · exact (always_outcome (o := .panic) hq).elim
  · refine .inr ⟨(inTouch_progress hp hq h).resolve_left hret, fun c' hs => ?_⟩
    exact inTouch_step hp hq h (fun a ha => hret ⟨a, ha⟩) hs

/-- **Meeting.** Threads that follow the scripts of the same rounds succeed together: in every
interleaving the client comes to return, and nothing is asked twice, left out or out of order. -/
theorem meet [Inhabited ε] {rs : List (Round X Y)} (stays : Bool)
    (hgives : Gives answer st (questions rs))
    (hp : ClientFollows stays A p (clientEvents rs))
    (hq : ServerFollows B q (serverEvents stays rs)) :
    Inevitable (Hosted.Step answer) (Met (questions rs) A B) ⟨⟨p, q⟩, st, []⟩ :=
  inTouch_met hp hq (.between (List.nil_append _) hgives)

end

end Interaction
