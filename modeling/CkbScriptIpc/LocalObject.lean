import CkbScriptIpc.Process

/-!
# An object in a process of its own

A script that calls the methods of a generated service may think of the object itself. Its calls are
made by the stubs of the generated client, in a process that has spawned the server.

* `script_local`: the script exits as with the object at hand, which is called the same methods in
  the same order;
* `demo_end_to_end`: the contract of the demonstration exits with 0.
-/

namespace CkbScriptIpc

open Interaction

namespace Service

/-! ## Calls of an object -/

section

variable [Lowercase] {svc : Service} {A B σ α : Type}

/-- `Serve::serve` of the generated server, over an implementation of the trait. -/
def answer (implement : σ → svc.Call A → B × σ) (st : σ) (req : svc.Request A) :
    Except IpcError (svc.Response B) × σ :=
  let c : svc.Call A := ⟨svc.arm req.variant, req.args⟩
  (.ok (c.response (implement st c).1), (implement st c).2)

theorem answer_request (implement : σ → svc.Call A → B × σ) (st : σ) (c : svc.Call A) :
    answer implement st c.request = (.ok (c.response (implement st c).1), (implement st c).2) := by
  have harm : (⟨svc.arm c.request.variant, c.request.args⟩ : svc.Call A) = c := by
    simp only [Call.request, arm_variant]
  rw [answer, harm]

theorem answer_told (implement : σ → svc.Call A → B × σ) (st : σ) (req : svc.Request A) :
    (answer implement st req).1 ≠ .error (.protocolError .ok) := nofun

variable [Allocator]

/-- Programs that call the methods of a service. -/
abbrev Caller (svc : Service) (A B α : Type) := Prog (fun _ : svc.Call A => B) α

/-- The stub of a method, over any client. -/
def remote (c : svc.Call A) : Prog (AskRes (svc.Request A) (svc.Response B)) B :=
  .call (.call c.request) fun
    | .ok (.value resp) =>
      if resp.variant = variant c.method then .ret resp.ret
      else .panic -- "IPC error: wrong method id"
    | _ => .panic -- "IPC error"

/-- The program, with its calls made by the stubs. -/
def client (p : Caller svc A B α) : Prog (AskRes (svc.Request A) (svc.Response B)) α :=
  (p.via (fun c (_ : Unit) => (remote c).map fun ret => (ret, ())) ()).map Prod.fst

/-- A call and what it returned, as the server is asked and answers. -/
def asked (x : svc.Call A × B) : svc.Request A × Except IpcError (svc.Response B) :=
  (x.1.request, .ok (x.1.response x.2))

section

variable [Serde (svc.Request A)] [Serde (svc.Response B)]

/-- The object itself, which keeps a log of its calls. They are to be such that the codec carries
them and what they return. -/
def locally (implement : σ → svc.Call A → B × σ) :
    Env (fun _ : svc.Call A => B) (σ × List (svc.Call A × B)) where
  pre w c := RoundTrips c.request ∧ RoundTrips (c.response (implement w.1 c).1)
  step w c ret w' := ret = (implement w.1 c).1 ∧ w' = ((implement w.1 c).2, w.2 ++ [(c, ret)])

variable {implement : σ → svc.Call A → B × σ} {st : σ} {p : Caller svc A B α}

theorem locally_determined : (locally implement).Determined := by
  rintro w c r w' r' w'' ⟨rfl, rfl⟩ ⟨rfl, rfl⟩
  exact ⟨rfl, rfl⟩

theorem locally_answers : (locally implement).Answers := fun _ _ _ => ⟨_, _, rfl, rfl⟩

/-- The server nearby stands for the object. -/
def StandsFor (w : σ × List (svc.Call A × B)) (_ : Unit)
    (v : Nearby (svc.Request A) (svc.Response B) σ) : Prop :=
  v = ⟨w.1, w.2.map asked, false⟩

/-- A stub returns what the method does. -/
theorem remote_nearby {w : σ × List (svc.Call A × B)}
    {v : Nearby (svc.Request A) (svc.Response B) σ} {c : svc.Call A}
    (hpre : (locally implement).pre w c) (hv : StandsFor w () v) :
    Always (nearby (answer implement) False) (returns fun r v' => ∃ w',
      (locally implement).step w c r.1 w' ∧ StandsFor w' r.2 v')
      ((remote c).map fun ret => (ret, ())) v := by
  obtain rfl := hv
  refine .call nofun ?_
  rintro r v ⟨rfl, rfl⟩
  rw [Nearby.ask_travels hpre.1 hpre.2 (answer_request implement w.1 c) rfl]
  simp only [Call.response, ↓reduceIte]
  refine .ret ⟨_, ⟨rfl, rfl⟩, ?_⟩
  rw [StandsFor, List.map_append]
  rfl

/-- What holds of a program with the object at hand holds with the stubs. -/
theorem client_nearby {Q : α → σ × List (svc.Call A × B) → Prop}
    (hp : Always (locally implement) (returns Q) p (st, [])) :
    Always (nearby (answer implement) False)
      (returns fun a v => ∃ w, Q a w ∧ StandsFor w () v) (client p) ⟨st, [], false⟩ := by
  have hstart : StandsFor (st, ([] : List (svc.Call A × B))) () ⟨st, [], false⟩ := rfl
  refine always_map ((always_via (fun hpre hv => remote_nearby hpre hv) hp hstart).mono ?_)
  rintro (r | _) v hr
  · exact hr
  · exact hr.elim

/-- **A remote object is a local one.** Let a script call the methods of an object, by the stubs of
a generated client and in a process that spawns the server. Then it exits, in every interleaving of
the two processes and with every kernel that does what is documented, as it does with the object at
hand, and the server has called the same methods in the same order, with the same results; unless
the kernel refuses a pipe or the child, and then no method is called. -/
theorem script_local (implement : σ → svc.Call A → B × σ) (st : σ) (p : Caller svc A B Int8)
    (Q : Int8 → σ × List (svc.Call A × B) → Prop)
    (hp : Always (locally implement) (returns Q) p (st, [])) (behind : Words)
    (hbehind : behind.head? = some 0) (k : Nat) :
    ∃ code st' log, Q code (st', log) ∧
      ∀ K : ProcessKernel (svc.Request A) (Except IpcError (svc.Response B)) σ,
        K.Documented (answer implement) st →
          Cooperates K (entry behind k (client p)) (log.map asked) true
            (fun code' => code' = code) fun _ => False := by
  obtain ⟨_ | _, ⟨st', log⟩, hq, hend⟩ := always_determined locally_determined locally_answers hp
  case panic => exact hq.elim
  case ret code =>
    have hreturns : Always (locally implement)
        (returns fun code' w => code' = code ∧ w = (st', log)) p (st, []) := by
      refine hend.mono ?_
      rintro (_ | _) w ⟨ho, hw⟩
      · cases ho
        exact ⟨rfl, hw⟩
      · cases ho
    obtain ⟨as, has⟩ := via_paced (answer_told implement) (client_nearby hreturns) k
    -- how the session ends is known from any run of it
    obtain ⟨_, _, ⟨_, ⟨-, rfl⟩, rfl⟩, hlog, hclosed⟩ := (session_converses k has).exits
    have hnone : failure (replies (answer implement) st
        ((as.filterMap Ask.payload).map Ask.incoming)) = none :=
      not_not.mp fun hfailure => Bool.false_ne_true (hclosed.mpr hfailure)
    refine ⟨code, st', log, hq, fun K hK => ?_⟩
    have hscript := script_cooperates (A := fun code' => Agreed (answer implement) st as fun v =>
      ∃ w, (code' = code ∧ w = (st', log)) ∧ StandsFor w () v) hK hbehind has
    rw [← hlog, hnone] at hscript
    refine hscript.mono ?_ ?_
    · rintro code' ⟨_, ⟨_, ⟨hcode, -⟩, -⟩, -⟩
      exact hcode
    · rintro code' ⟨-, hfailed⟩
      exact hfailed rfl

end

end

/-! ## The demonstration -/

section

attribute [local instance] Allocator.ample Lowercase.ascii requestCodec responseCodec

/-- What `client_entry` does with its client. -/
def demoClient : Caller world Bytes (Except UInt64 Bytes) Int8 :=
  .call (hello "world") fun ret =>
    (Prog.unwrap ret.toOption).bind fun _ => .call (hello "error") fun _ => .ret 0

/-- The calls of the demonstration, and what they return. -/
def demoCalls : List (world.Call Bytes × Except UInt64 Bytes) :=
  [(hello "world", .ok (ascii "hello, world")), (hello "error", .error 1)]

theorem demoCalls_carried : ∀ x ∈ demoCalls, RoundTrips x.1.request ∧
    RoundTrips (x.1.response x.2) ∧ answerHello () x.1 = (x.2, ()) := by
  intro x hx
  rw [demoCalls, List.mem_cons, List.mem_singleton] at hx
  rcases hx with rfl | rfl
  · exact ⟨by decide +kernel, by decide +kernel, by decide +kernel⟩
  · exact ⟨by decide +kernel, by decide +kernel, by decide +kernel⟩

theorem demoClient_local : Always (locally answerHello)
    (returns fun code w => code = 0 ∧ w.2 = demoCalls) demoClient ((), []) := by
  obtain ⟨hreq, hresp, hret⟩ := demoCalls_carried _ List.mem_cons_self
  obtain ⟨hreq', hresp', hret'⟩ := demoCalls_carried _ (List.mem_cons_of_mem _ List.mem_cons_self)
  refine .call ⟨hreq, by rw [hret]; exact hresp⟩ ?_
  rintro _ _ ⟨rfl, rfl⟩
  rw [hret]
  refine .call ⟨hreq', by rw [hret']; exact hresp'⟩ ?_
  rintro _ _ ⟨rfl, rfl⟩
  rw [hret']
  exact .ret ⟨rfl, rfl⟩

/-- The contract of the demonstration exits with 0, on a kernel on which a write waits until it has
been read. -/
theorem demo_end_to_end : ∃ code, ∃ (_ : Unit), ∃ log, (code = 0 ∧ log = demoCalls) ∧
    Cooperates (waitingKernel (answer answerHello) ()) (entry [0] 8 (client demoClient))
      (log.map asked) true (fun code' => code' = code) fun _ => False := by
  obtain ⟨code, st, log, hq, hscript⟩ := script_local answerHello () demoClient
    (fun code w => code = 0 ∧ w.2 = demoCalls) demoClient_local [0] rfl 8
  exact ⟨code, st, log, hq, hscript _ (waitingKernel_documented (answer answerHello) ())⟩

end

end Service

end CkbScriptIpc
