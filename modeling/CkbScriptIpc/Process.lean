import CkbScriptIpc.Spawn
import CkbScriptIpc.Remote
import CkbScriptIpc.Interaction.Pool
import Mathlib.Data.Finset.Card

/-!
# Parent and child

A script that spawns its server, and the server, which is the same script with arguments. Both call
by descriptors of a kernel that keeps whose a descriptor is, and hands those that a child inherits
over to it. The kernel is a parameter, of which `ProcessKernel.Documented` says what it may do.

* `linked`: what the two do by descriptors is a dialogue over two pipes, whichever descriptors the
  kernel has given out;
* `script_end_to_end`: what holds of a client with the service nearby holds of the process that
  spawns the server, in every interleaving of the two processes.
-/

namespace CkbScriptIpc

open Interaction

variable {X Y Req Resp α σ : Type}

/-! ## Scripts -/

/-- The calls of a script: those that set a child up, those on descriptors, and the methods of the
service. -/
inductive ScriptOp (X : Type) where
  | setup (call : Syscall)
  | inheritedFds
  | read (fd : UInt64) (n : Nat)
  | write (fd : UInt64) (bs : Bytes)
  | ext (x : X)

def ScriptOp.Res (Y : Type) : ScriptOp X → Type
  | .setup call => call.Res SysError
  | .inheritedFds => List UInt64
  | .read _ _ => Except SysError Bytes
  | .write _ _ => Except SysError Nat
  | .ext _ => Y

abbrev Script (X Y α : Type) := Prog (ScriptOp.Res (X := X) Y) α

namespace Pipe

/-- `Read for Pipe`. -/
def read (self : Pipe) (n : Nat) : Script X Y (Except ErrorKind Bytes) :=
  .call (.read self.fd n) fun (r : Except SysError Bytes) => .ret (r.mapError fun _ => .other)

/-- `Write for Pipe`. -/
def write (self : Pipe) (bs : Bytes) : Script X Y (Except ErrorKind Nat) :=
  if bs = [] then .ret (.ok 0)
  else .call (.write self.fd bs) fun (r : Except SysError Nat) => .ret (r.mapError fun _ => .other)

def flush (_ : Pipe) : Script X Y (Except ErrorKind Unit) := .ret (.ok ())

end Pipe

/-- The calls of a channel that has been given two pipes. -/
def onPipes : (op : StreamOp X) → Pipe × Pipe → Script X Y (IoRes X Y op × (Pipe × Pipe))
  | .read n, ends => (ends.1.read n).map fun r => (r, ends)
  | .write bs, ends => (ends.2.write bs).map fun r => (r, ends)
  | .flush, ends => ends.2.flush.map fun r => (r, ends)
  | .ext x, ends => .call (.ext x) fun r => .ret (r, ends)

/-- `Source::CellDep`. -/
def cellDep : UInt64 := 3

/-- The exit codes of the errors of the contracts. -/
inductive ContractError where
  | unknown
  | ckbSysError
  | serverError

def ContractError.code : ContractError → Int8
  | .unknown => 1
  | .ckbSysError => 2
  | .serverError => 3

section

variable [Allocator] [Serde Req] [Serde Resp]

/-- `client_entry`, which spawns the server and then does what `client` does. The array of
descriptors lies before `behind`. -/
def clientEntry (behind : Words) (capacity : Nat) (client : Prog (AskRes Req Resp) Int8) :
    Script X Y Int8 :=
  ((spawnServer behind 0 cellDep [Service.ascii "demo"] ()).hoist .setup fun _ r => r).bind
    fun r => match r.1 with
      | .ok ends =>
        ((client.via Channel.ask (Channel.new capacity Source.mk Sink.mk)).via onPipes ends).map
          fun r => r.1.1
      | .error _ => .ret ContractError.ckbSysError.code

/-- The exit code of a server. -/
def serverCode : Except IpcError Unit → Int8
  | .ok _ => 0
  | .error _ => ContractError.serverError.code

/-- `server_entry`, which runs the server on what the process has inherited. -/
def serverEntry (capacity : Nat) : Script Req (Except IpcError Resp) Int8 :=
  .call .inheritedFds fun (fds : List UInt64) =>
    (Prog.unwrap (runServer capacity fds)).bind fun channel =>
      ((Channel.execute served (Channel.new capacity Source.mk Sink.mk)).via onPipes
        (channel.reader.inner, channel.writer.inner)).map fun r => serverCode r.1.1

/-- `entry`. Without arguments the script is the client. -/
def entry (behind : Words) (capacity : Nat) (client : Prog (AskRes Req Resp) Int8)
    (argv : List Bytes) : Script Req (Except IpcError Resp) Int8 :=
  if argv.isEmpty then clientEntry behind capacity client else serverEntry capacity

end

/-! ## The kernel -/

/-- An end of a pipe: whose it is, which pipe, and whether it is the end for writing. -/
structure PipeEnd where
  owner : Nat
  pipe : Nat
  writes : Bool
  deriving DecidableEq

/-- The arguments of a process, and the descriptors that it has inherited. -/
structure Process where
  argv : List Bytes
  inherited : List UInt64

/-- The ends and the contents of the pipes, the processes in the order in which they were spawned,
and the service behind a server with what it has been asked and has answered. A pipe stays as long
as the first process runs. -/
structure Resources (X Y σ : Type) where
  ends : UInt64 → Option PipeEnd
  pipes : List Bytes
  procs : List Process
  service : σ
  log : List (X × Y)

namespace Resources

def start (st : σ) : Resources X Y σ := ⟨fun _ => none, [], [⟨[], []⟩], st, []⟩

/-- A new pipe of the process `pid`. -/
def openPipe (w : Resources X Y σ) (pid : Nat) (rd wr : UInt64) : Resources X Y σ :=
  { w with
    ends := Function.update (Function.update w.ends rd (some ⟨pid, w.pipes.length, false⟩)) wr
      (some ⟨pid, w.pipes.length, true⟩)
    pipes := w.pipes ++ [[]] }

/-- A new process, to which the descriptors `fds` are handed over. -/
def spawn (w : Resources X Y σ) (argv : List Bytes) (fds : List UInt64) : Resources X Y σ :=
  { w with
    ends := fun fd => if fd ∈ fds then (w.ends fd).map ({ · with owner := w.procs.length })
      else w.ends fd
    procs := w.procs ++ [⟨argv, fds⟩] }

/-- What is in the pipe `i` changes. -/
def fill (w : Resources X Y σ) (i : Nat) (bs : Bytes) : Resources X Y σ :=
  { w with pipes := w.pipes.set i bs }

/-- The service is asked `x`. -/
def serve (w : Resources X Y σ) (answer : σ → X → Y × σ) (x : X) : Resources X Y σ :=
  { w with
    service := (answer w.service x).2
    log := w.log ++ [(x, (answer w.service x).1)] }

/-- Two descriptors that may be given out. -/
def Free (w : Resources X Y σ) (rd wr : UInt64) : Prop :=
  rd ≠ 0 ∧ wr ≠ 0 ∧ rd ≠ wr ∧ w.ends rd = none ∧ w.ends wr = none

/-- The process `pid` has the descriptors `fds`. -/
def Has (w : Resources X Y σ) (pid : Nat) (fds : List UInt64) : Prop :=
  ∀ fd ∈ fds, ∃ e, w.ends fd = some e ∧ e.owner = pid

/-- All that the process `pid` has written has been read. -/
def Drained (w : Resources X Y σ) (pid : Nat) : Prop :=
  ∀ fd i bs, w.ends fd = some ⟨pid, i, true⟩ → w.pipes[i]? = some bs → bs = []

/-- The process `pid` has the descriptors by which it makes a call. -/
def Owns (w : Resources X Y σ) (pid : Nat) : ScriptOp X → Prop
  | .setup (.spawn _ _ _ _ _ words) => ∃ fds, readFds words = some fds ∧ w.Has pid fds
  | .read fd _ => ∃ i, w.ends fd = some ⟨pid, i, false⟩
  | .write fd _ => ∃ i, w.ends fd = some ⟨pid, i, true⟩
  | _ => True

/-- A call of the process `pid` has not to wait for another process. -/
def Ready (w : Resources X Y σ) (pid : Nat) : ScriptOp X → Prop
  | .setup _ => True
  | .inheritedFds => pid < w.procs.length
  | .read fd n => ∃ i bs, w.ends fd = some ⟨pid, i, false⟩ ∧ w.pipes[i]? = some bs ∧ bs ≠ [] ∧ 0 < n
  | .write fd _ => ∃ i bs, w.ends fd = some ⟨pid, i, true⟩ ∧ w.pipes[i]? = some bs
  | .ext _ => 0 < pid

end Resources

/-- How a kernel answers the calls of each process, in worlds of its own, and what these keep. -/
structure ProcessKernel (X Y σ : Type) where
  World : Type
  boot : World
  calls : Nat → Env (ScriptOp.Res (X := X) Y) World
  kept : World → Resources X Y σ

/-- What is documented of the calls, and of the service. A pipe or a process may be refused. A read
waits while the pipe is empty, and a writer may be kept waiting until what it has written has been
read; the ends of the two processes stay open. Nothing is said of a call by a descriptor that the
process does not have. -/
structure ProcessKernel.Documented (K : ProcessKernel X Y σ) (answer : σ → X → Y × σ) (st : σ) :
    Prop where
  boot : K.kept K.boot = .start st
  /-- Two descriptors that are not in use, and not zero. -/
  pipe : ∀ {pid w r w'}, (K.calls pid).step w (.setup .pipe) r w' →
    (∃ rd wr, (K.kept w).Free rd wr ∧ r = .ok (rd, wr) ∧
      K.kept w' = (K.kept w).openPipe pid rd wr) ∨
    (∃ e, r = .error e) ∧ K.kept w' = K.kept w
  /-- The descriptors are read up to the first zero word, and handed over. -/
  spawn : ∀ {pid w index source place bounds argv words r w'},
    (K.calls pid).step w (.setup (.spawn index source place bounds argv words)) r w' →
    (∃ fds id, readFds words = some fds ∧ (K.kept w).Has pid fds ∧ r = .ok id ∧
      K.kept w' = (K.kept w).spawn argv fds) ∨
    (∃ e, r = .error e) ∧ K.kept w' = K.kept w
  inheritedFds : ∀ {pid w r w'}, (K.calls pid).step w .inheritedFds r w' →
    ∃ p, (K.kept w).procs[pid]? = some p ∧ r = p.inherited ∧ K.kept w' = K.kept w
  /-- A read takes a part from the front of what is in the pipe. -/
  read : ∀ {pid w fd n r w' i}, (K.kept w).ends fd = some ⟨pid, i, false⟩ →
    (K.calls pid).step w (.read fd n) r w' →
    ∃ bs c t, (K.kept w).pipes[i]? = some bs ∧ Chunk n bs c t ∧ r = .ok c ∧
      K.kept w' = (K.kept w).fill i t
  /-- A write takes all that is offered. -/
  write : ∀ {pid w fd bs r w' i}, (K.kept w).ends fd = some ⟨pid, i, true⟩ →
    (K.calls pid).step w (.write fd bs) r w' →
    ∃ written, (K.kept w).pipes[i]? = some written ∧ r = .ok bs.length ∧
      K.kept w' = (K.kept w).fill i (written ++ bs)
  /-- The service is behind a child, and answers. -/
  serve : ∀ {pid w x r w'}, (K.calls pid).step w (.ext x) r w' →
    0 < pid ∧ r = (answer (K.kept w).service x).1 ∧ K.kept w' = (K.kept w).serve answer x
  /-- Who has nothing to wait for goes on. -/
  goes_on : ∀ {pid w op}, (K.kept w).Drained pid → (K.kept w).Ready pid op →
    ∃ r w', (K.calls pid).step w op r w'

/-! ## By descriptors -/

/-- The descriptors by which a party reads and writes, and its script. -/
structure Talk (X Y : Type) where
  rd : UInt64
  wr : UInt64
  script : List (Event X Y)

/-- The environment of a party that follows its script by its two descriptors. -/
def talking : Env (ScriptOp.Res (X := X) Y) (Talk X Y) where
  pre
    | t, .read fd n => fd = t.rd ∧ (paced (Y := Y) (ε := ErrorKind)).pre t.script (.read n)
    | t, .write fd bs => fd = t.wr ∧ (paced (Y := Y) (ε := ErrorKind)).pre t.script (.write bs)
    | t, .ext x => (paced (Y := Y) (ε := ErrorKind)).pre t.script (.ext x)
    | _, _ => False
  step
    | t, .read _ n, r, t' => ∃ c L, r = .ok c ∧
      (paced (ε := ErrorKind)).step t.script (.read n) (.ok c) L ∧ t' = { t with script := L }
    | t, .write _ bs, r, t' => r = .ok bs.length ∧ ∃ L,
      (paced (ε := ErrorKind)).step t.script (.write bs) (.ok bs.length) L ∧
        t' = { t with script := L }
    | t, .ext x, r, t' => ∃ L, (paced (ε := ErrorKind)).step t.script (.ext x) r L ∧
      t' = { t with script := L }
    | _, _, _, _ => False

section

variable {rd wr : UInt64} {L : List (Event X Y)}

/-- A call of the channel, through its two pipes. -/
theorem onPipes_talking {op : StreamOp X} (hpre : (paced (Y := Y) (ε := ErrorKind)).pre L op) :
    Always talking (returns fun r t => ∃ L', (paced (ε := ErrorKind)).step L op r.1 L' ∧
      r.2 = (⟨rd⟩, ⟨wr⟩) ∧ t = ⟨rd, wr, L'⟩)
      (onPipes op (⟨rd⟩, ⟨wr⟩) : Script X Y _) ⟨rd, wr, L⟩ := by
  cases op with
  | read n =>
    refine .call ⟨rfl, hpre⟩ ?_
    rintro _ _ ⟨c, L', rfl, hs, rfl⟩
    exact .ret ⟨L', hs, rfl, rfl⟩
  | write bs =>
    rw [onPipes, Pipe.write]
    split
    case isTrue hbs =>
      subst hbs
      obtain ⟨L', hemits⟩ := hpre
      rcases emits_cases hemits with ⟨-, rfl⟩ | ⟨hne, -⟩
      · exact .ret ⟨L', ⟨hemits, rfl⟩, rfl, rfl⟩
      · exact absurd rfl hne
    case isFalse =>
      refine .call ⟨rfl, hpre⟩ ?_
      rintro _ _ ⟨rfl, L', hs, rfl⟩
      exact .ret ⟨L', hs, rfl, rfl⟩
  | flush => exact .ret ⟨L, ⟨rfl, rfl⟩, rfl, rfl⟩
  | ext x =>
    refine .call hpre ?_
    rintro _ _ ⟨L', hs, rfl⟩
    exact .ret ⟨L', hs, rfl, rfl⟩

/-- A party that follows its script follows it by descriptors. -/
theorem always_onPipes {p : Prog (IoRes X Y) α} {Q : α → List (Event X Y) → Prop}
    (h : Always paced (returns Q) p L) :
    Always talking (returns fun r t => Q r.1 t.script)
      (p.via onPipes (⟨rd⟩, ⟨wr⟩) : Script X Y _) ⟨rd, wr, L⟩ := by
  refine (always_via (V := fun L s t => s = (⟨rd⟩, ⟨wr⟩) ∧ t = ⟨rd, wr, L⟩) ?_ h
    ⟨rfl, rfl⟩).mono (returns_mono ?_)
  · rintro L op _ _ hpre ⟨rfl, rfl⟩
    exact onPipes_talking hpre
  · rintro r _ ⟨L', hq, -, rfl⟩
    exact hq

end

/-! ## What the two processes see -/

/-- The pipes that the parent has, and then how it talks to the child, unless it was refused. -/
inductive ParentView (X Y : Type) where
  | fresh
  | one (r1 w1 : UInt64)
  | two (r1 w1 r2 w2 : UInt64)
  | spawned (t : Talk X Y)
  | refused

/-- The environment of the parent, which is to follow the script `L` when it has its child. -/
def parental (L : List (Event X Y)) : Env (ScriptOp.Res (X := X) Y) (ParentView X Y) where
  pre
    | .fresh, .setup .pipe => True
    | .one _ _, .setup .pipe => True
    | .two _ w1 r2 _, .setup (.spawn _ _ _ _ argv words) =>
      argv ≠ [] ∧ readFds words = some [r2, w1]
    | .spawned t, op => talking.pre t op
    | _, _ => False
  step
    | .fresh, .setup .pipe, r, v =>
      (∃ r1 w1, w1 ≠ 0 ∧ r = .ok (r1, w1) ∧ v = .one r1 w1) ∨ (∃ e, r = .error e) ∧ v = .refused
    | .one r1 w1, .setup .pipe, r, v =>
      (∃ r2 w2, r2 ≠ 0 ∧ r = .ok (r2, w2) ∧ v = .two r1 w1 r2 w2) ∨
        (∃ e, r = .error e) ∧ v = .refused
    | .two r1 _ _ w2, .setup (.spawn _ _ _ _ _ _), r, v =>
      (∃ id, r = .ok id) ∧ v = .spawned ⟨r1, w2, L⟩ ∨ (∃ e, r = .error e) ∧ v = .refused
    | .spawned t, op, r, v => ∃ t', talking.step t op r t' ∧ v = .spawned t'
    | _, _, _, _ => False

/-- The child waits until it is there, and then it serves. -/
inductive ChildView (X Y : Type) where
  | waiting
  | serving (t : Talk X Y)

/-- The environment of the child, which is to follow the script `L`. -/
def filial (L : List (Event X Y)) : Env (ScriptOp.Res (X := X) Y) (ChildView X Y) where
  pre
    | .waiting, .inheritedFds => True
    | .serving t, op => talking.pre t op
    | _, _ => False
  step
    | .waiting, .inheritedFds, fds, v => ∃ r2 w1, fds = [r2, w1] ∧ v = .serving ⟨r2, w1, L⟩
    | .serving t, op, r, v => ∃ t', talking.step t op r t' ∧ v = .serving t'
    | _, _, _, _ => False

theorem simulates_parental (L : List (Event X Y)) :
    Simulates talking (parental L) id (fun _ r => r) fun t v => v = .spawned t where
  pre := by
    rintro t _ op rfl hpre
    exact hpre
  step := by
    rintro t _ op r _ rfl - ⟨t', hs, rfl⟩
    exact ⟨t', hs, rfl⟩

theorem simulates_filial (L : List (Event X Y)) :
    Simulates talking (filial L) id (fun _ r => r) fun t v => v = .serving t where
  pre := by
    rintro t _ op rfl hpre
    exact hpre
  step := by
    rintro t _ op r _ rfl - ⟨t', hs, rfl⟩
    exact ⟨t', hs, rfl⟩

/-- The parent exits in `A` at the end of its script, or with an error when it was refused. -/
def Parted (A : Int8 → Prop) (code : Int8) (v : ParentView X Y) : Prop :=
  (A code ∧ ∃ t, v = .spawned t ∧ t.script = []) ∨
    code = ContractError.ckbSysError.code ∧ v = .refused

/-- The child exits in `B` at the end of its script. -/
def Served (B : Int8 → Prop) (code : Int8) (v : ChildView X Y) : Prop :=
  B code ∧ ∃ t, v = .serving t ∧ t.script = []

section

variable [Allocator] [Serde Req] [Serde Resp]

/-- The parent sets its child up, and then does what the client does. -/
theorem clientEntry_parental {behind : Words} (hbehind : behind.head? = some 0) {k : Nat}
    {client : Prog (AskRes Req Resp) Int8} {A : Int8 → Prop} {L : List (Event X Y)}
    (h : Always paced (returns fun r L => A r.1 ∧ L = [])
      (client.via Channel.ask (Channel.new k Source.mk Sink.mk) : Prog (IoRes X Y) _) L) :
    Always (parental L) (returns (Parted A)) (clientEntry behind k client : Script X Y Int8)
      .fresh := by
  refine .call trivial ?_
  rintro _ _ (⟨r1, w1, hw1, rfl, rfl⟩ | ⟨⟨e, rfl⟩, rfl⟩)
  case inr => exact .ret (.inr ⟨rfl, rfl⟩)
  refine .call trivial ?_
  rintro _ _ (⟨r2, w2, hr2, rfl, rfl⟩ | ⟨⟨e, rfl⟩, rfl⟩)
  case inr => exact .ret (.inr ⟨rfl, rfl⟩)
  have hread : readFds ([r2, w1] ++ behind) = some [r2, w1] := by
    rw [readFds_append (by simp [hr2, hw1]), readFds_eq_nil.mpr hbehind]
    rfl
  refine .call ⟨List.cons_ne_nil _ _, hread⟩ ?_
  rintro _ _ (⟨⟨id, rfl⟩, rfl⟩ | ⟨⟨e, rfl⟩, rfl⟩)
  case inr => exact .ret (.inr ⟨rfl, rfl⟩)
  refine always_map ((always_simulates (simulates_parental L) (always_onPipes h) rfl).mono ?_)
  rintro (r | _) _ ⟨t, rfl, hr⟩
  · exact .inl ⟨hr.1, t, rfl, hr.2⟩
  · exact hr.elim

/-- The child serves on the descriptors that it has inherited. -/
theorem serverEntry_filial {l : Nat} {B : Except IpcError Unit → Prop}
    {L : List (Event Req (Except IpcError Resp))}
    (h : Always paced (returns fun r L => B r.1 ∧ L = [])
      (Channel.execute served (Channel.new l Source.mk Sink.mk) :
        Prog (IoRes Req (Except IpcError Resp)) _) L) :
    Always (filial L) (returns (Served fun code => ∃ r, B r ∧ code = serverCode r))
      (serverEntry l) .waiting := by
  refine .call trivial ?_
  rintro _ _ ⟨r2, w1, rfl, rfl⟩
  refine always_map ((always_simulates (simulates_filial L) (always_onPipes h) rfl).mono ?_)
  rintro (r | _) _ ⟨t, rfl, hr⟩
  · exact ⟨⟨_, hr.1, rfl⟩, t, rfl, hr.2⟩
  · exact hr.elim

end

/-! ## The two together -/

/-- The first pipe leads to the parent and the second one to the child, which has inherited its
ends. -/
structure Wired (r1 w1 r2 w2 : UInt64) (toParent toChild : Bytes) (w : Resources X Y σ) :
    Prop where
  parentReads : w.ends r1 = some ⟨0, 0, false⟩
  childWrites : w.ends w1 = some ⟨1, 0, true⟩
  childReads : w.ends r2 = some ⟨1, 1, false⟩
  parentWrites : w.ends w2 = some ⟨0, 1, true⟩
  writers : ∀ fd pid i, w.ends fd = some ⟨pid, i, true⟩ → pid = 1 ∧ i = 0 ∨ pid = 0 ∧ i = 1
  pipes : w.pipes = [toParent, toChild]
  procs : ∃ argv, argv ≠ [] ∧ w.procs = [⟨[], []⟩, ⟨argv, [r2, w1]⟩]

/-- How the views of the two and the kernel go together: the parent sets the child up, and then
the scripts and the pipes are in pace. -/
inductive Linked (answer : σ → X → Y × σ) (stays : Bool) (all : List (X × Y))
    (L₂ : List (Event X Y)) (st : σ) : ParentView X Y → ChildView X Y → Resources X Y σ → Prop
  | fresh : Linked answer stays all L₂ st .fresh .waiting (.start st)
  | one {r1 w1 : UInt64} : r1 ≠ w1 →
      Linked answer stays all L₂ st (.one r1 w1) .waiting ((Resources.start st).openPipe 0 r1 w1)
  | two {r1 w1 r2 w2 : UInt64} : [r1, w1, r2, w2].Nodup →
      Linked answer stays all L₂ st (.two r1 w1 r2 w2) .waiting
        (((Resources.start st).openPipe 0 r1 w1).openPipe 0 r2 w2)
  | refused {w : Resources X Y σ} : w.procs = [⟨[], []⟩] → w.log = [] →
      Linked answer stays all L₂ st .refused .waiting w
  | spawned {r1 w1 r2 w2 : UInt64} {toChild : Bytes} {L : List (Event X Y)}
      {w : Resources X Y σ} : Wired r1 w1 r2 w2 [] toChild w →
      InPace answer stays all L L₂ ⟨toChild, [], w.service, w.log⟩ →
      Linked answer stays all L₂ st (.spawned ⟨r1, w2, L⟩) .waiting w
  | serving {r1 w1 r2 w2 : UInt64} {toParent toChild : Bytes} {L L' : List (Event X Y)}
      {w : Resources X Y σ} : Wired r1 w1 r2 w2 toParent toChild w →
      InPace answer stays all L L' ⟨toChild, toParent, w.service, w.log⟩ →
      Linked answer stays all L₂ st (.spawned ⟨r1, w2, L⟩) (.serving ⟨r2, w1, L'⟩) w

section

variable {answer : σ → X → Y × σ} {stays : Bool} {all : List (X × Y)} {st : σ}
  {L L' L₁ L₂ : List (Event X Y)} {r1 w1 r2 w2 : UInt64} {toParent toChild : Bytes}
  {w w' : Resources X Y σ} {v₁ : ParentView X Y} {v₂ : ChildView X Y}

/-- The child is given its two ends. -/
theorem wired_spawn {argv : List Bytes} (hnodup : [r1, w1, r2, w2].Nodup) (hargv : argv ≠ []) :
    Wired r1 w1 r2 w2 [] [] ((((Resources.start st : Resources X Y σ).openPipe 0 r1 w1).openPipe 0
      r2 w2).spawn argv [r2, w1]) := by
  simp only [List.nodup_cons, List.mem_cons, List.not_mem_nil, or_false, not_or] at hnodup
  obtain ⟨⟨h12, h13, h14⟩, ⟨h23, h24⟩, h34, -⟩ := hnodup
  refine ⟨?_, ?_, ?_, ?_, fun fd pid i hfd => ?_, rfl, argv, hargv, rfl⟩
  case refine_5 =>
    have h42 : w2 ≠ w1 := Ne.symm h24
    have h43 : w2 ≠ r2 := Ne.symm h34
    simp only [Resources.spawn, Resources.openPipe, Resources.start, Function.update_apply,
      List.mem_pair] at hfd
    -- the descriptor is one of the four, and only two of these are for writing
    split_ifs at hfd <;> simp_all
  all_goals
    simp [Resources.spawn, Resources.openPipe, Resources.start, Function.update_apply, *, Ne.symm]

/-- What is in the first pipe changes. -/
theorem Wired.fillFirst (h : Wired r1 w1 r2 w2 toParent toChild w) (bs : Bytes) :
    Wired r1 w1 r2 w2 bs toChild (w.fill 0 bs) where
  parentReads := h.parentReads
  childWrites := h.childWrites
  childReads := h.childReads
  parentWrites := h.parentWrites
  writers := h.writers
  pipes := by rw [Resources.fill, h.pipes]; rfl
  procs := h.procs

/-- What is in the second pipe changes. -/
theorem Wired.fillSecond (h : Wired r1 w1 r2 w2 toParent toChild w) (bs : Bytes) :
    Wired r1 w1 r2 w2 toParent bs (w.fill 1 bs) where
  parentReads := h.parentReads
  childWrites := h.childWrites
  childReads := h.childReads
  parentWrites := h.parentWrites
  writers := h.writers
  pipes := by rw [Resources.fill, h.pipes]; rfl
  procs := h.procs

/-- The service is asked. -/
theorem Wired.serve (h : Wired r1 w1 r2 w2 toParent toChild w) (x : X) :
    Wired r1 w1 r2 w2 toParent toChild (w.serve answer x) where
  parentReads := h.parentReads
  childWrites := h.childWrites
  childReads := h.childReads
  parentWrites := h.parentWrites
  writers := h.writers
  pipes := h.pipes
  procs := h.procs

/-- A process of the two whose pipe is empty has nothing to wait for. -/
theorem wired_drained (h : Wired r1 w1 r2 w2 toParent toChild w) :
    (toChild = [] → w.Drained 0) ∧ (toParent = [] → w.Drained 1) := by
  constructor
  · rintro rfl fd i bs hfd hbs
    rcases h.writers fd 0 i hfd with ⟨hpid, -⟩ | ⟨-, rfl⟩
    · cases hpid
    · rw [h.pipes] at hbs
      exact (Option.some.inj hbs).symm
  · rintro rfl fd i bs hfd hbs
    rcases h.writers fd 1 i hfd with ⟨-, rfl⟩ | ⟨hpid, -⟩
    · rw [h.pipes] at hbs
      exact (Option.some.inj hbs).symm
    · cases hpid

/-- A descriptor that is free is none of those given out. -/
theorem openPipe_free {pid : Nat} {rd wr fd : UInt64}
    (h : (w.openPipe pid rd wr).ends fd = none) : fd ≠ rd ∧ fd ≠ wr := by
  constructor
  · rintro rfl
    by_cases hwr : fd = wr
    · simp [Resources.openPipe, hwr] at h
    · simp [Resources.openPipe, Function.update_of_ne hwr] at h
  · rintro rfl
    simp [Resources.openPipe] at h

/-- The parent has what it hands over. -/
theorem has_both (hnodup : [r1, w1, r2, w2].Nodup) :
    (((Resources.start st : Resources X Y σ).openPipe 0 r1 w1).openPipe 0 r2 w2).Has 0
      [r2, w1] := by
  simp only [List.nodup_cons, List.mem_cons, List.not_mem_nil, or_false, not_or] at hnodup
  obtain ⟨-, ⟨h23, h24⟩, h34, -⟩ := hnodup
  rintro fd hfd
  rcases List.mem_pair.mp hfd with rfl | rfl
  · exact ⟨_, by simp [Resources.openPipe, h34]; rfl, rfl⟩
  · exact ⟨_, by simp [Resources.openPipe, h23, h24]; rfl, rfl⟩

/-- With nothing in the pipes nobody is kept waiting. -/
theorem drained_of_empty {pid : Nat} (h : ∀ bs ∈ w.pipes, bs = []) : w.Drained pid :=
  fun _ _ bs _ hbs => h bs (List.mem_of_getElem? hbs)

/-- How many processes there are, as far as the parent has come. -/
def ParentView.started : ParentView X Y → Nat
  | .spawned _ => 2
  | _ => 1

theorem ParentView.one_le_started (v : ParentView X Y) : 1 ≤ v.started := by
  cases v <;> simp [started]

theorem ParentView.started_le (v : ParentView X Y) : v.started ≤ 2 := by
  cases v <;> simp [started]

theorem linked_length (h : Linked answer stays all L₂ st v₁ v₂ w) :
    w.procs.length = v₁.started := by
  cases h with
  | refused hprocs _ => rw [hprocs]; rfl
  | spawned hw _ =>
    obtain ⟨argv, -, hprocs⟩ := hw.procs
    rw [hprocs]
    rfl
  | serving hw _ =>
    obtain ⟨argv, -, hprocs⟩ := hw.procs
    rw [hprocs]
    rfl
  | _ => rfl

/-- Processes do not go away. -/
theorem parental_grows {op : ScriptOp X} {r : op.Res Y} {v v' : ParentView X Y}
    (hs : (parental L).step v op r v') : v.started ≤ v'.started := by
  cases v with
  | spawned _ =>
    obtain ⟨t, -, rfl⟩ := hs
    exact le_rfl
  | _ => exact v'.one_le_started

/-- What is still to be logged is logged at the end of the parent's script. -/
theorem linked_log (h : Linked answer stays all L₂ st v₁ v₂ w) :
    w.log <+: all ∧ (∀ t, v₁ = .spawned t → t.script = [] → w.log = all) ∧
      (v₁ = .refused → w.log = []) := by
  cases h with
  | refused _ hlog =>
    rw [hlog]
    exact ⟨List.nil_prefix, nofun, fun _ => rfl⟩
  | spawned _ hpace =>
    refine ⟨ inPace_prefix hpace, ?_, nofun⟩
    rintro _ ⟨⟩ rfl
    exact (inPace_done hpace).1
  | serving _ hpace =>
    refine ⟨ inPace_prefix hpace, ?_, nofun⟩
    rintro _ ⟨⟩ rfl
    exact (inPace_done hpace).1
  | _ => exact ⟨List.nil_prefix, nofun, nofun⟩

/-- A party that talks makes its calls by its two descriptors. -/
theorem talking_owns {pid i j : Nat} {rd wr : UInt64} {op : ScriptOp X}
    (hrd : w.ends rd = some ⟨pid, i, false⟩) (hwr : w.ends wr = some ⟨pid, j, true⟩)
    (hpre : (talking (X := X) (Y := Y)).pre ⟨rd, wr, L⟩ op) : w.Owns pid op := by
  cases op with
  | setup call => exact hpre.elim
  | inheritedFds => exact hpre.elim
  | read fd n =>
    obtain ⟨rfl, -⟩ := hpre
    exact ⟨i, hrd⟩
  | write fd bs =>
    obtain ⟨rfl, -⟩ := hpre
    exact ⟨j, hwr⟩
  | ext x => trivial

/-- The calls that its view permits to the parent are by descriptors of its own. -/
theorem linked_owns (h : Linked answer stays all L₂ st v₁ v₂ w) {op : ScriptOp X}
    (hpre : (parental L₁).pre v₁ op) : w.Owns 0 op := by
  cases h with
  | spawned hw _ => exact talking_owns hw.parentReads hw.parentWrites hpre
  | serving hw _ => exact talking_owns hw.parentReads hw.parentWrites hpre
  | two hnodup =>
    rcases op with (_ | _) | _ | _ | _ | _
    case setup.spawn => exact ⟨_, hpre.2, has_both hnodup⟩
    all_goals exact hpre.elim
  | _ =>
    rcases op with (_ | _) | _ | _ | _ | _
    case setup.pipe => trivial
    all_goals exact hpre.elim

/-- And so are those of the child. -/
theorem linked_child_owns (h : Linked answer stays all L₂ st v₁ v₂ w) {op : ScriptOp X}
    (hpre : (filial L₂).pre v₂ op) : w.Owns 1 op := by
  cases h with
  | serving hw _ => exact talking_owns hw.childReads hw.childWrites hpre
  | _ =>
    cases op with
    | inheritedFds => trivial
    | _ => exact hpre.elim

end

/-! ## The kernel in between -/

section

variable {answer : σ → X → Y × σ} {stays : Bool} {all : List (X × Y)} {st : σ}
  {K : ProcessKernel X Y σ} {L L' L₁ L₂ : List (Event X Y)} {r1 w1 r2 w2 : UInt64}
  {toParent toChild : Bytes} {w w' : K.World} {v₁ : ParentView X Y} {v₂ : ChildView X Y}

/-- A call of the parent is one at its side of the two pipes. -/
theorem wired_parent (hK : K.Documented answer st)
    (h : Wired r1 w1 r2 w2 toParent toChild (K.kept w))
    (hpace : InPace answer stays all L L' ⟨toChild, toParent, (K.kept w).service, (K.kept w).log⟩)
    {op : ScriptOp X} {r : op.Res Y} (hpre : talking.pre ⟨r1, w2, L⟩ op)
    (hs : (K.calls 0).step w op r w') :
    ∃ M toParent' toChild', talking.step ⟨r1, w2, L⟩ op r ⟨r1, w2, M⟩ ∧
      Wired r1 w1 r2 w2 toParent' toChild' (K.kept w') ∧
      InPace answer stays all M L' ⟨toChild', toParent', (K.kept w').service, (K.kept w').log⟩ ∧
      (toParent = [] → toParent' = []) := by
  cases op with
  | setup call => exact hpre.elim
  | inheritedFds => exact hpre.elim
  | read fd n =>
    obtain ⟨rfl, hpre⟩ := hpre
    obtain ⟨bs, c, t, hbs, hchunk, rfl, hkept⟩ := hK.read h.parentReads hs
    rw [h.pipes] at hbs
    obtain rfl := Option.some.inj hbs
    obtain ⟨M, hstep, hpace'⟩ := inPace_client_read (δ := ErrorKind) hpace hchunk
    rw [hkept]
    refine ⟨M, t, toChild, ⟨c, M, rfl, hstep, rfl⟩, h.fillFirst t, hpace', ?_⟩
    rintro rfl
    exact absurd rfl hchunk.ne_nil
  | write fd bs =>
    obtain ⟨rfl, hpre⟩ := hpre
    obtain ⟨written, hwritten, rfl, hkept⟩ := hK.write h.parentWrites hs
    rw [h.pipes] at hwritten
    obtain rfl := Option.some.inj hwritten
    obtain ⟨M, hstep, hpace'⟩ := inPace_client_write (δ := ErrorKind) hpace hpre
    rw [hkept]
    exact ⟨M, toParent, toChild ++ bs, ⟨rfl, M, hstep, rfl⟩, h.fillSecond _, hpace', id⟩
  | ext x => exact absurd (hK.serve hs).1 (Nat.lt_irrefl 0)

/-- A call of the child is one at its side. -/
theorem wired_child (hK : K.Documented answer st)
    (h : Wired r1 w1 r2 w2 toParent toChild (K.kept w))
    (hpace : InPace answer stays all L L' ⟨toChild, toParent, (K.kept w).service, (K.kept w).log⟩)
    {op : ScriptOp X} {r : op.Res Y} (hpre : talking.pre ⟨r2, w1, L'⟩ op)
    (hs : (K.calls 1).step w op r w') :
    ∃ M toParent' toChild', talking.step ⟨r2, w1, L'⟩ op r ⟨r2, w1, M⟩ ∧
      Wired r1 w1 r2 w2 toParent' toChild' (K.kept w') ∧
      InPace answer stays all L M ⟨toChild', toParent', (K.kept w').service, (K.kept w').log⟩ := by
  cases op with
  | setup call => exact hpre.elim
  | inheritedFds => exact hpre.elim
  | read fd n =>
    obtain ⟨rfl, hpre⟩ := hpre
    obtain ⟨bs, c, t, hbs, hchunk, rfl, hkept⟩ := hK.read h.childReads hs
    rw [h.pipes] at hbs
    obtain rfl := Option.some.inj hbs
    obtain ⟨M, hstep, hpace'⟩ := inPace_server_read (ε := ErrorKind) hpace hchunk
    rw [hkept]
    exact ⟨M, toParent, t, ⟨c, M, rfl, hstep, rfl⟩, h.fillSecond t, hpace'⟩
  | write fd bs =>
    obtain ⟨rfl, hpre⟩ := hpre
    obtain ⟨written, hwritten, rfl, hkept⟩ := hK.write h.childWrites hs
    rw [h.pipes] at hwritten
    obtain rfl := Option.some.inj hwritten
    obtain ⟨M, hstep, hpace'⟩ := inPace_server_write (ε := ErrorKind) hpace hpre
    rw [hkept]
    exact ⟨M, toParent ++ bs, toChild, ⟨rfl, M, hstep, rfl⟩, h.fillFirst _, hpace'⟩
  | ext x =>
    obtain ⟨-, rfl, hkept⟩ := hK.serve hs
    obtain ⟨M, hstep, hpace'⟩ := inPace_server_ask (ε := ErrorKind) hpace hpre
    rw [hkept]
    exact ⟨M, toParent, toChild, ⟨M, hstep, rfl⟩, h.serve x, hpace'⟩

/-- **The two processes are in pace**, whichever descriptors they are given. -/
theorem linked (hK : K.Documented answer st)
    (hstart : InPace answer stays all L₁ L₂ ⟨[], [], st, []⟩) :
    Coupling (K.calls 0) (K.calls 1) (parental L₁) (filial L₂)
      fun v₁ v₂ w => Linked answer stays all L₂ st v₁ v₂ (K.kept w) where
  left := by
    intro v₁ v₂ w op r w' h hpre hs
    generalize hw : K.kept w = kept at h
    cases h with
    | fresh =>
      rcases op with (_ | _) | _ | _ | _ | _
      · rcases hK.pipe hs with ⟨r1, w1, ⟨-, hw1, hne, -, -⟩, rfl, hkept⟩ | ⟨⟨e, rfl⟩, hkept⟩
        · rw [hw] at hkept
          exact ⟨_, .inl ⟨r1, w1, hw1, rfl, rfl⟩, hkept ▸ .one hne⟩
        · rw [hw] at hkept
          exact ⟨_, .inr ⟨⟨e, rfl⟩, rfl⟩, hkept ▸ .refused rfl rfl⟩
      all_goals exact hpre.elim
    | @one r1 w1 h12 =>
      rcases op with (_ | _) | _ | _ | _ | _
      · rcases hK.pipe hs with ⟨r2, w2, ⟨hr2, -, hne, hrd, hwr⟩, rfl, hkept⟩ | ⟨⟨e, rfl⟩, hkept⟩
        · rw [hw] at hrd hwr hkept
          obtain ⟨h31, h32⟩ := openPipe_free hrd
          obtain ⟨h41, h42⟩ := openPipe_free hwr
          refine ⟨_, .inl ⟨r2, w2, hr2, rfl, rfl⟩, hkept ▸ .two ?_⟩
          simp [h12, h31.symm, h32.symm, h41.symm, h42.symm, hne]
        · rw [hw] at hkept
          exact ⟨_, .inr ⟨⟨e, rfl⟩, rfl⟩, hkept ▸ .refused rfl rfl⟩
      all_goals exact hpre.elim
    | two hnodup =>
      rcases op with (_ | _) | _ | _ | _ | _
      case setup.spawn =>
        obtain ⟨hargv, hread⟩ := hpre
        rcases hK.spawn hs with ⟨fds, id, hfds, -, rfl, hkept⟩ | ⟨⟨e, rfl⟩, hkept⟩
        · rw [hw] at hkept
          obtain rfl := Option.some.inj (hread.symm.trans hfds)
          exact ⟨_, .inl ⟨⟨id, rfl⟩, rfl⟩, hkept ▸ .spawned (wired_spawn hnodup hargv) hstart⟩
        · rw [hw] at hkept
          exact ⟨_, .inr ⟨⟨e, rfl⟩, rfl⟩, hkept ▸ .refused rfl rfl⟩
      all_goals exact hpre.elim
    | refused _ _ => exact hpre.elim
    | spawned hwired hpace =>
      subst hw
      obtain ⟨M, toParent, _, hstep, hwired', hpace', hempty⟩ :=
        wired_parent hK hwired hpace hpre hs
      obtain rfl : toParent = [] := hempty rfl
      exact ⟨_, ⟨_, hstep, rfl⟩, .spawned hwired' hpace'⟩
    | serving hwired hpace =>
      subst hw
      obtain ⟨M, _, _, hstep, hwired', hpace', -⟩ := wired_parent hK hwired hpace hpre hs
      exact ⟨_, ⟨_, hstep, rfl⟩, .serving hwired' hpace'⟩
  right := by
    intro v₁ v₂ w op r w' h hpre hs
    generalize hw : K.kept w = kept at h
    cases h with
    | spawned hwired hpace =>
      subst hw
      cases op with
      | inheritedFds =>
        obtain ⟨argv, -, hprocs⟩ := hwired.procs
        obtain ⟨p, hp, rfl, hkept⟩ := hK.inheritedFds hs
        rw [hprocs] at hp
        obtain rfl := Option.some.inj hp
        refine ⟨_, ⟨_, _, rfl, rfl⟩, ?_⟩
        rw [hkept]
        exact .serving hwired hpace
      | _ => exact hpre.elim
    | serving hwired hpace =>
      subst hw
      obtain ⟨M, _, _, hstep, hwired', hpace'⟩ := wired_child hK hwired hpace hpre hs
      exact ⟨_, ⟨_, hstep, rfl⟩, .serving hwired' hpace'⟩
    | refused hprocs _ =>
      cases op with
      | inheritedFds =>
        obtain ⟨p, hp, -⟩ := hK.inheritedFds hs
        rw [hw, hprocs] at hp
        cases hp
      | _ => exact hpre.elim
    | _ =>
      cases op with
      | inheritedFds =>
        obtain ⟨p, hp, -⟩ := hK.inheritedFds hs
        rw [hw] at hp
        cases hp
      | _ => exact hpre.elim

/-- One of the two can make every call that its view permits, when both talk. -/
theorem wired_answers (hK : K.Documented answer st)
    (h : Wired r1 w1 r2 w2 toParent toChild (K.kept w)) (hdrained : (K.kept w).Drained 0)
    (hanswers : AnswersView (clientSide (X := X) (Y := Y) (δ := ErrorKind)) paced
      ⟨toChild, toParent, (K.kept w).service, (K.kept w).log⟩ L) :
    AnswersView (K.calls 0) (parental L₁) w (.spawned ⟨r1, w2, L⟩) := by
  rintro (_ | _ | ⟨fd, n⟩ | ⟨fd, bs⟩ | x) hpre
  · exact hpre.elim
  · exact hpre.elim
  · obtain ⟨rfl, hpre⟩ := hpre
    obtain ⟨_, _, c, t, hchunk, -, -⟩ := hanswers _ hpre
    exact hK.goes_on hdrained
      ⟨0, toParent, h.parentReads, by rw [h.pipes]; rfl, hchunk.ne_nil, hchunk.pos⟩
  · obtain ⟨rfl, -⟩ := hpre
    exact hK.goes_on hdrained ⟨1, toChild, h.parentWrites, by rw [h.pipes]; rfl⟩
  · obtain ⟨_, _, hs⟩ := hanswers (.ext x) hpre
    exact hs.elim

theorem wired_child_answers (hK : K.Documented answer st)
    (h : Wired r1 w1 r2 w2 toParent toChild (K.kept w)) (hdrained : (K.kept w).Drained 1)
    (hanswers : AnswersView (serverEnd (ε := ErrorKind) answer) paced
      ⟨toChild, toParent, (K.kept w).service, (K.kept w).log⟩ L) :
    AnswersView (K.calls 1) (filial L₂) w (.serving ⟨r2, w1, L⟩) := by
  rintro (_ | _ | ⟨fd, n⟩ | ⟨fd, bs⟩ | x) hpre
  · exact hpre.elim
  · exact hpre.elim
  · obtain ⟨rfl, hpre⟩ := hpre
    obtain ⟨_, _, c, t, hchunk, -, -⟩ := hanswers _ hpre
    exact hK.goes_on hdrained
      ⟨1, toChild, h.childReads, by rw [h.pipes]; rfl, hchunk.ne_nil, hchunk.pos⟩
  · obtain ⟨rfl, -⟩ := hpre
    exact hK.goes_on hdrained ⟨0, toParent, h.childWrites, by rw [h.pipes]; rfl⟩
  · exact hK.goes_on hdrained Nat.zero_lt_one

/-- Until it has its child the parent can make its calls. -/
theorem linked_answers (hK : K.Documented answer st)
    (h : Linked answer stays all L₂ st v₁ v₂ (K.kept w)) (hv : ∀ t, v₁ ≠ .spawned t) :
    AnswersView (K.calls 0) (parental L₁) w v₁ := by
  intro op hpre
  have hgoes : (∀ bs ∈ (K.kept w).pipes, bs = []) → (K.kept w).Ready 0 op →
      ∃ r w', (K.calls 0).step w op r w' := fun hempty => hK.goes_on (drained_of_empty hempty)
  generalize K.kept w = kept at h hgoes
  cases h with
  | spawned _ _ => exact absurd rfl (hv _)
  | serving _ _ => exact absurd rfl (hv _)
  | refused _ _ => exact hpre.elim
  | fresh =>
    rcases op with (_ | _) | _ | _ | _ | _
    case setup.pipe => exact hgoes nofun trivial
    all_goals exact hpre.elim
  | one _ =>
    rcases op with (_ | _) | _ | _ | _ | _
    case setup.pipe => exact hgoes (by simp [Resources.openPipe, Resources.start]) trivial
    all_goals exact hpre.elim
  | two _ =>
    rcases op with (_ | _) | _ | _ | _ | _
    case setup.spawn => exact hgoes (by simp [Resources.openPipe, Resources.start]) trivial
    all_goals exact hpre.elim

end

/-! ## The pool of the processes -/

/-- The processes that there are, each of which runs the script. -/
def processes (script : List Bytes → Script X Y Int8) (w : Resources X Y σ) :
    List (Script X Y Int8) :=
  w.procs.map fun p => script p.argv

namespace ProcessKernel

variable (K : ProcessKernel X Y σ) (script : List Bytes → Script X Y Int8)

def started (w : K.World) : List (Script X Y Int8) := processes script (K.kept w)

/-- The states that some interleaving of the processes reaches. -/
abbrev Spawns : Pool (ScriptOp.Res (X := X) Y) Int8 K.World → Prop :=
  Pool.Reach K.calls (K.started script) ⟨K.started script K.boot, K.boot⟩

end ProcessKernel

/-- In every interleaving of the processes neither panics, and there is no third; each makes its
calls by descriptors of its own. If the kernel refuses a pipe or the child, the first process exits
with `Error::CkbSysError` and the service is asked nothing. Otherwise the service is asked `all`,
once each and in order, the first process exits with a code in `A`, and its child, unless it stays,
with one in `B`. -/
structure Cooperates (K : ProcessKernel X Y σ) (script : List Bytes → Script X Y Int8)
    (all : List (X × Y)) (stays : Bool) (A B : Int8 → Prop) : Prop where
  no_panic : ∀ {m}, K.Spawns script m → .panic ∉ m.procs
  at_most_two : ∀ {m}, K.Spawns script m → m.procs.length ≤ 2
  owns : ∀ {m pid op k}, K.Spawns script m → m.procs[pid]? = some (.call op k) →
    (K.kept m.world).Owns pid op
  in_order : ∀ {m}, K.Spawns script m → (K.kept m.world).log <+: all
  exited : ∀ {m code}, K.Spawns script m → m.procs[0]? = some (.ret code) →
    m.procs.length = 2 ∧ A code ∧ (K.kept m.world).log = all ∨
      m.procs.length = 1 ∧ code = ContractError.ckbSysError.code ∧ (K.kept m.world).log = []
  ended : ∀ {m code}, K.Spawns script m → m.procs[1]? = some (.ret code) → B code
  terminates : Pool.Terminates K.calls (K.started script) ⟨K.started script K.boot, K.boot⟩
  at_rest : ∀ {m}, K.Spawns script m → Pool.AtRest K.calls (K.started script) m →
    (∃ code, m.procs[0]? = some (.ret code)) ∧
      (stays = false → m.procs.length = 2 → ∃ code, m.procs[1]? = some (.ret code))

section

variable {answer : σ → X → Y × σ} {stays : Bool} {all : List (X × Y)} {st : σ}
  {K : ProcessKernel X Y σ} {L₁ L₂ : List (Event X Y)} {A B : Int8 → Prop}
  {q : Script X Y Int8} {c c' : Pair (ScriptOp.Res (X := X) Y) Int8 Int8 K.World}
  {w w' : K.World} {v₁ : ParentView X Y} {v₂ : ChildView X Y}

/-- Both processes are on course, and the child is still `q` until it is there. -/
def UnderWay (K : ProcessKernel X Y σ) (answer : σ → X → Y × σ) (stays : Bool)
    (all : List (X × Y)) (L₁ L₂ : List (Event X Y)) (st : σ) (A B : Int8 → Prop)
    (q : Script X Y Int8) (c : Pair (ScriptOp.Res (X := X) Y) Int8 Int8 K.World) : Prop :=
  ∃ v₁ v₂, Always (parental L₁) (returns (Parted A)) c.left v₁ ∧
    Always (filial L₂) (returns (Served B)) c.right v₂ ∧
    Linked answer stays all L₂ st v₁ v₂ (K.kept c.world) ∧ (v₂ = .waiting → c.right = q)

/-- What the child does first is to ask what it has inherited. -/
theorem child_step (hK : K.Documented answer st)
    (hstart : InPace answer stays all L₁ L₂ ⟨[], [], st, []⟩)
    {k : List UInt64 → Script X Y Int8} {q' q'' : Script X Y Int8}
    (h : Always (filial L₂) (returns (Served B)) q' v₂)
    (hlinked : Linked answer stays all L₂ st v₁ v₂ (K.kept w))
    (hwaiting : v₂ = .waiting → q' = .call .inheritedFds k)
    (hs : Step (K.calls 1) q' w q'' w') :
    ∃ v, Always (filial L₂) (returns (Served B)) q'' v ∧
      Linked answer stays all L₂ st v₁ v (K.kept w') ∧ v ≠ .waiting := by
  cases v₂ with
  | waiting =>
    obtain rfl := hwaiting rfl
    cases hs with
    | call hs =>
      have hpre : (filial L₂).pre .waiting .inheritedFds := trivial
      obtain ⟨v, hs', hlinked'⟩ := (linked hK hstart).right hlinked hpre hs
      refine ⟨v, always_step h (.call hs'), hlinked', ?_⟩
      obtain ⟨r2, w1, -, rfl⟩ := hs'
      nofun
  | serving t =>
    refine always_view_step
      (R := fun v w => Linked answer stays all L₂ st v₁ v (K.kept w) ∧ v ≠ .waiting) h
      ⟨hlinked, nofun⟩ (fun hpre hs => ?_) hs
    obtain ⟨v, hs', hlinked'⟩ := (linked hK hstart).right hlinked hpre hs
    refine ⟨v, hs', hlinked', ?_⟩
    obtain ⟨t', -, rfl⟩ := hs'
    nofun

/-- A step of one of the two keeps them on course, and no process goes away. -/
theorem underWay_step (hK : K.Documented answer st)
    (hstart : InPace answer stays all L₁ L₂ ⟨[], [], st, []⟩)
    {k : List UInt64 → Script X Y Int8}
    (h : UnderWay K answer stays all L₁ L₂ st A B (.call .inheritedFds k) c)
    (hs : Pair.Step (K.calls 0) (K.calls 1) c c') :
    UnderWay K answer stays all L₁ L₂ st A B (.call .inheritedFds k) c' ∧
      (K.kept c.world).procs.length ≤ (K.kept c'.world).procs.length := by
  obtain ⟨v₁, v₂, h₁, h₂, hlinked, hwaiting⟩ := h
  rw [linked_length hlinked]
  cases hs with
  | left hs =>
    obtain ⟨v₁', h₁', hlinked', hle⟩ := always_view_step
      (R := fun v w => Linked answer stays all L₂ st v v₂ (K.kept w) ∧ v₁.started ≤ v.started)
      h₁ ⟨hlinked, le_rfl⟩ (fun hpre hs => by
        obtain ⟨v, hs', hlinked'⟩ := (linked hK hstart).left hlinked hpre hs
        exact ⟨v, hs', hlinked', parental_grows hs'⟩) hs
    refine ⟨⟨v₁', v₂, h₁', h₂, hlinked', hwaiting⟩, ?_⟩
    rw [linked_length hlinked']
    exact hle
  | right hs =>
    obtain ⟨v₂', h₂', hlinked', hne⟩ := child_step hK hstart h₂ hlinked hwaiting hs
    refine ⟨⟨v₁, v₂', h₁, h₂', hlinked', fun h => absurd h hne⟩, ?_⟩
    rw [linked_length hlinked']

/-- The processes, as far as the parent has come. -/
theorem linked_procs {w : Resources X Y σ} (h : Linked answer stays all L₂ st v₁ v₂ w) :
    (∃ argv fds, argv ≠ [] ∧ w.procs = [⟨[], []⟩, ⟨argv, fds⟩]) ∨
      w.procs = [⟨[], []⟩] ∧ v₂ = .waiting := by
  cases h with
  | spawned hw _ =>
    obtain ⟨argv, hargv, hprocs⟩ := hw.procs
    exact .inl ⟨argv, _, hargv, hprocs⟩
  | serving hw _ =>
    obtain ⟨argv, hargv, hprocs⟩ := hw.procs
    exact .inl ⟨argv, _, hargv, hprocs⟩
  | refused hprocs _ => exact .inr ⟨hprocs, rfl⟩
  | _ => exact .inr ⟨rfl, rfl⟩

/-- The first process starts the second. -/
theorem underWay_starts (hK : K.Documented answer st)
    (hstart : InPace answer stays all L₁ L₂ ⟨[], [], st, []⟩)
    {script : List Bytes → Script X Y Int8} {k : List UInt64 → Script X Y Int8}
    (hscript : ∀ argv, argv ≠ [] → script argv = .call .inheritedFds k) :
    Starts K.calls (K.started script) (script []) (.call .inheritedFds k)
      (UnderWay K answer stays all L₁ L₂ st A B (.call .inheritedFds k)) where
  keeps h hs := (underWay_step hK hstart h hs).1
  grows h hs := by
    simp only [ProcessKernel.started, processes, List.length_map]
    exact (underWay_step hK hstart h hs).2
  procs := by
    intro c h
    obtain ⟨v₁, v₂, -, -, hlinked, hwaiting⟩ := h
    rcases linked_procs hlinked with ⟨argv, fds, hargv, hprocs⟩ | ⟨hprocs, rfl⟩
    · left
      rw [ProcessKernel.started, processes, hprocs, List.map_cons, List.map_cons, List.map_nil,
        hscript argv hargv]
    · right
      refine ⟨by rw [ProcessKernel.started, processes, hprocs]; rfl, hwaiting rfl,
        fun q' w' hs => ?_⟩
      cases hs with
      | call hs =>
        obtain ⟨p, hp, -⟩ := hK.inheritedFds hs
        rw [hprocs] at hp
        cases hp

/-- The two rest when the parent has exited, and then the child has done its part. -/
theorem underWay_rest (hK : K.Documented answer st)
    (h : UnderWay K answer stays all L₁ L₂ st A B q c)
    (hrest : Pair.AtRest (K.calls 0) (K.calls 1) c) :
    (∃ code, c.left = .ret code) ∧
      (stays = false → (K.kept c.world).procs.length = 2 → ∃ code, c.right = .ret code) := by
  obtain ⟨left, right, w⟩ := c
  obtain ⟨v₁, v₂, h₁, h₂, hlinked, -⟩ := h
  have hleft : AnswersView (K.calls 0) (parental L₁) w v₁ →
      ∃ code, left = .ret code ∧ Parted A code v₁ := by
    intro hanswers
    obtain ⟨_ | _, he, ho⟩ := always_at_rest h₁ hanswers fun _ _ hs => hrest _ (.left hs)
    · exact ⟨_, he, ho⟩
    · exact ho.elim
  have hright : AnswersView (K.calls 1) (filial L₂) w v₂ →
      ∃ code, right = .ret code ∧ Served B code v₂ := by
    intro hanswers
    obtain ⟨_ | _, he, ho⟩ := always_at_rest h₂ hanswers fun _ _ hs => hrest _ (.right hs)
    · exact ⟨_, he, ho⟩
    · exact ho.elim
  by_cases hfirst : ∃ t, v₁ = .spawned t
  · obtain ⟨t, rfl⟩ := hfirst
    have hlen : (K.kept w).procs.length = 2 := linked_length hlinked
    have hspawned : ∀ {code}, Parted A code (.spawned t) → t.script = [] := by
      rintro code (⟨-, _, ⟨⟩, hscript⟩ | ⟨-, ⟨⟩⟩)
      exact hscript
    generalize hw : K.kept w = kept at hlinked
    cases hlinked with
    | spawned hwired hpace =>
      subst hw
      have hanswers : AnswersView (K.calls 1) (filial L₂) w .waiting := by
        intro op hpre
        cases op with
        | inheritedFds =>
          refine hK.goes_on ((wired_drained hwired).2 rfl) ?_
          show 1 < (K.kept w).procs.length
          rw [hlen]
          exact Nat.one_lt_two
        | _ => exact hpre.elim
      obtain ⟨_, -, -, _, ht, -⟩ := hright hanswers
      cases ht
    | serving hwired hpace =>
      subst hw
      obtain ⟨hparent, hchild⟩ := wired_drained hwired
      rcases inPace_turn (δ := ErrorKind) (ε := ErrorKind) hpace with
        ⟨hempty, hanswers⟩ | ⟨hempty, hanswers⟩
      · obtain ⟨code, hcode, hparted⟩ := hleft (wired_answers hK hwired (hparent hempty) hanswers)
        refine ⟨⟨code, hcode⟩, ?_⟩
        obtain rfl := hspawned hparted
        rintro rfl -
        obtain ⟨-, rfl⟩ := inPace_done hpace
        obtain ⟨code', hcode', -⟩ := hright (wired_child_answers hK hwired
          (hchild (inPace_done_empty hpace).2) (serverEnd_answers (by
            rintro (⟨_, _, hL⟩ | hL) <;> cases hL)))
        exact ⟨code', hcode'⟩
      · obtain ⟨code', hcode', -, _, ⟨⟩, rfl⟩ :=
          hright (wired_child_answers hK hwired (hchild hempty) hanswers)
        obtain ⟨code, hcode, -⟩ := hleft (wired_answers hK hwired
          (hparent (inPace_server_done_empty hpace)) (inPace_server_done hpace))
        exact ⟨⟨code, hcode⟩, fun _ _ => ⟨code', hcode'⟩⟩
  · have hv : ∀ t, v₁ ≠ .spawned t := fun t ht => hfirst ⟨t, ht⟩
    obtain ⟨code, hcode, -⟩ := hleft (linked_answers hK hlinked hv)
    refine ⟨⟨code, hcode⟩, fun _ hlen => ?_⟩
    rw [linked_length hlinked] at hlen
    cases v₁ with
    | spawned t => exact absurd rfl (hv t)
    | _ => cases hlen

/-- The call of a program that is on course is permitted. -/
theorem always_pre {W α : Type} {Op : Type} {Res : Op → Type} {E : Env Res W}
    {Q : Outcome α → W → Prop} {op : Op} {k : Res op → Prog Res α} {w : W}
    (h : Always E Q (.call op k) w) : E.pre w op := by
  cases h with
  | call hpre _ => exact hpre

/-- **Processes.** A parent that sets its child up and follows its script, and a child that follows
the other one, cooperate. -/
theorem cooperate (hK : K.Documented answer st) {script : List Bytes → Script X Y Int8}
    {rs : List (Round X Y)} (hscript : ∀ argv, argv ≠ [] → script argv = q)
    (hfirst : ∃ k, q = .call .inheritedFds k) (hgives : Gives answer st (questions rs))
    (hp : Always (parental (clientEvents rs)) (returns (Parted A)) (script []) .fresh)
    (hq : Always (filial (serverEvents stays rs)) (returns (Served B)) q .waiting) :
    Cooperates K script (questions rs) stays A B := by
  obtain ⟨k, rfl⟩ := hfirst
  have hstart : InPace answer stays (questions rs) (clientEvents (U := X) (V := Y) rs)
      (serverEvents stays rs) ⟨[], [], st, []⟩ :=
    .replying (t := []) (u := []) (List.nil_append _) hgives
  let I := UnderWay K answer stays (questions rs) (clientEvents rs) (serverEvents stays rs) st A B
    (.call .inheritedFds k)
  have hstarts : Starts K.calls (K.started script) (script []) (.call .inheritedFds k) I :=
    underWay_starts hK hstart hscript
  have hfresh : Linked answer stays (questions rs) (serverEvents stays rs) st .fresh .waiting
      (K.kept K.boot) := hK.boot ▸ .fresh
  have hway : I ⟨script [], .call .inheritedFds k, K.boot⟩ := ⟨_, _, hp, hq, hfresh, fun _ => rfl⟩
  have hpool : (⟨script [], .call .inheritedFds k, K.boot⟩ : Pair _ _ _ _).pool (K.started script) =
      ⟨K.started script K.boot, K.boot⟩ := by
    have hone : K.started script K.boot = [script []] := by
      rw [ProcessKernel.started, hK.boot]
      rfl
    rw [pool_one hone, hone]
  have hreach : ∀ {m}, K.Spawns script m → ∃ c, I c ∧ m = c.pool (K.started script) := by
    intro m hr
    have hrun : Pool.Reach K.calls (K.started script) _ m := hr
    rw [← hpool] at hrun
    obtain ⟨c, -, hc, rfl⟩ := pool_reach hstarts hway hrun
    exact ⟨c, hc, rfl⟩
  have hlength : ∀ {c}, I c → (c.pool (K.started script)).procs.length =
      (K.kept c.world).procs.length := by
    intro c hc
    obtain ⟨v₁, v₂, -, -, hlinked, -⟩ := hc
    have hle : (K.kept c.world).procs.length ≤ 2 := by
      rw [linked_length hlinked]
      exact v₁.started_le
    rw [Pair.pool, List.length_take, ProcessKernel.started, processes, List.length_map]
    exact Nat.min_eq_left hle
  constructor
  case no_panic =>
    intro m hr hpanic
    obtain ⟨c, ⟨v₁, v₂, h₁, h₂, -, -⟩, rfl⟩ := hreach hr
    rcases pool_mem hpanic with he | he
    · rw [← he] at h₁
      exact always_outcome (o := .panic) h₁
    · rw [← he] at h₂
      exact always_outcome (o := .panic) h₂
  case at_most_two =>
    intro m hr
    obtain ⟨c, -, rfl⟩ := hreach hr
    exact List.length_take_le' _ _
  case owns =>
    intro m pid op k' hr he
    obtain ⟨c, hc, rfl⟩ := hreach hr
    have hfirst := pool_first hstarts hc
    obtain ⟨v₁, v₂, h₁, h₂, hlinked, -⟩ := hc
    rcases pid with _ | _ | pid
    · rw [hfirst] at he
      rw [Option.some.inj he] at h₁
      exact linked_owns hlinked (always_pre h₁)
    · rw [pool_second he] at h₂
      exact linked_child_owns hlinked (always_pre h₂)
    · have hlen := (List.getElem?_eq_some_iff.mp he).1
      have hle : (c.pool (K.started script)).procs.length ≤ 2 := List.length_take_le' _ _
      omega
  case in_order =>
    intro m hr
    obtain ⟨c, ⟨v₁, v₂, -, -, hlinked, -⟩, rfl⟩ := hreach hr
    exact (linked_log hlinked).1
  case exited =>
    intro m code hr he
    obtain ⟨c, hc, rfl⟩ := hreach hr
    rw [pool_first hstarts hc] at he
    rw [hlength hc]
    obtain ⟨v₁, v₂, h₁, -, hlinked, -⟩ := hc
    rw [Option.some.inj he] at h₁
    rw [linked_length hlinked]
    rcases always_outcome (o := .ret code) h₁ with ⟨ha, t, rfl, hscript⟩ | ⟨rfl, rfl⟩
    · exact .inl ⟨rfl, ha, (linked_log hlinked).2.1 t rfl hscript⟩
    · exact .inr ⟨rfl, rfl, (linked_log hlinked).2.2 rfl⟩
  case ended =>
    intro m code hr he
    obtain ⟨c, ⟨v₁, v₂, -, h₂, -, -⟩, rfl⟩ := hreach hr
    rw [pool_second he] at h₂
    exact (always_outcome (o := .ret code) h₂).1
  case terminates =>
    rw [← hpool]
    exact pool_terminates hstarts hway (coupled_terminates (linked hK hstart) hp hq hfresh)
  case at_rest =>
    intro m hr hrest
    obtain ⟨c, hc, rfl⟩ := hreach hr
    obtain ⟨⟨code, hcode⟩, hend⟩ := underWay_rest hK hc (pool_at_rest hstarts hc hrest)
    refine ⟨⟨code, by rw [pool_first hstarts hc, hcode]⟩, fun hstays hlen => ?_⟩
    rw [hlength hc] at hlen
    obtain ⟨code', hcode'⟩ := hend hstays hlen
    refine ⟨code', ?_⟩
    rw [Pair.pool, ProcessKernel.started, processes, List.length_map, hlen, ← hcode']
    rfl

theorem Cooperates.mono {script : List Bytes → Script X Y Int8} {A' B' : Int8 → Prop}
    (h : Cooperates K script all stays A B) (ha : ∀ code, A code → A' code)
    (hb : ∀ code, B code → B' code) : Cooperates K script all stays A' B' where
  no_panic := h.no_panic
  at_most_two := h.at_most_two
  owns := h.owns
  in_order := h.in_order
  exited hr he := (h.exited hr he).imp_left fun ⟨hlen, hcode, hlog⟩ => ⟨hlen, ha _ hcode, hlog⟩
  ended hr he := hb _ (h.ended hr he)
  terminates := h.terminates
  at_rest := h.at_rest

end

/-! ## The script -/

section

variable [Allocator] [Serde Req] [Serde Resp] {answer : σ → Req → Except IpcError Resp × σ}
  {st : σ} {K : ProcessKernel Req (Except IpcError Resp) σ}

/-- A client that follows its side of a session, in the process that spawns the server. -/
theorem script_cooperates (hK : K.Documented answer st) {client : Prog (AskRes Req Resp) Int8}
    {A : Int8 → Prop} {qs : List Incoming} {behind : Words} (hbehind : behind.head? = some 0)
    {k : Nat}
    (hp : Always paced (returns fun r L => A r.1 ∧ L = [])
      (client.via Channel.ask (Channel.new k Source.mk Sink.mk) :
        Prog (IoRes Req (Except IpcError Resp)) _)
      (clientEvents ((replies answer st qs).map sessionRound))) :
    Cooperates K (entry behind k client) (questions ((replies answer st qs).map sessionRound))
      (failure (replies answer st qs)).isNone A
      fun code => code = ContractError.serverError.code ∧
        failure (replies answer st qs) ≠ none := by
  refine cooperate (q := serverEntry k) hK (fun argv hargv => ?_) ⟨_, rfl⟩ (gives_replies st _)
    (clientEntry_parental hbehind hp) ?_
  · rw [entry, if_neg (by simpa using hargv)]
  · refine (serverEntry_filial (B := fun r => ∃ e, failure (replies answer st qs) = some e ∧
      r = .error e) (execute_paced answer st qs k)).mono (returns_mono ?_)
    rintro code v ⟨⟨_, ⟨e, he, rfl⟩, rfl⟩, hv⟩
    refine ⟨⟨rfl, ?_⟩, hv⟩
    rw [he]
    exact Option.some_ne_none e

/-- **A script that spawns its server.** Whatever holds of a client program when the service is
nearby holds of the process that spawns the server and calls it by descriptors, in every
interleaving of the two processes and with every kernel that does what is documented, if a zero
word lies behind the array of descriptors. The child exits exactly if the service fails. -/
theorem script_end_to_end (answer : σ → Req → Except IpcError Resp × σ)
    (hanswer : ∀ st req, (answer st req).1 ≠ .error (.protocolError .ok)) (st : σ)
    (client : Prog (AskRes Req Resp) Int8) (Q : Int8 → Nearby Req Resp σ → Prop)
    (hp : Always (nearby answer False) (returns Q) client ⟨st, [], false⟩) (behind : Words)
    (hbehind : behind.head? = some 0) (k : Nat) :
    ∃ as : List (Ask Req),
      let xs := replies answer st ((as.filterMap Ask.payload).map Ask.incoming)
      ∀ K : ProcessKernel Req (Except IpcError Resp) σ, K.Documented answer st →
        Cooperates K (entry behind k client) (questions (xs.map sessionRound))
          (failure xs).isNone (fun code => Agreed answer st as (Q code))
          fun code => code = ContractError.serverError.code ∧ failure xs ≠ none := by
  obtain ⟨as, has⟩ := via_paced hanswer hp k
  exact ⟨as, fun _ hK => script_cooperates hK hbehind has⟩

end

/-! ## A kernel on which a writer waits -/

/-- The kernel that refuses no child, and a pipe only when there are no two descriptors left. Who
has written waits until it has been read. -/
def waitingKernel (answer : σ → X → Y × σ) (st : σ) : ProcessKernel X Y σ where
  World := Resources X Y σ
  boot := .start st
  kept w := w
  calls pid :=
    { pre := fun _ _ => True
      step := fun w op r w' => w.Drained pid ∧ match op, r with
        | .setup .pipe, r => (∃ rd wr, w.Free rd wr ∧ r = .ok (rd, wr) ∧
            w' = w.openPipe pid rd wr) ∨
          (∀ rd wr, ¬ w.Free rd wr) ∧ (∃ e, r = .error e) ∧ w' = w
        | .setup (.spawn _ _ _ _ argv words), r => (∃ fds id, readFds words = some fds ∧
            w.Has pid fds ∧ r = .ok id ∧ w' = w.spawn argv fds) ∨
          (∀ fds, readFds words = some fds → ¬ w.Has pid fds) ∧ (∃ e, r = .error e) ∧ w' = w
        | .inheritedFds, r => ∃ p, w.procs[pid]? = some p ∧ r = p.inherited ∧ w' = w
        | .read fd n, r => ∃ i bs c t, w.ends fd = some ⟨pid, i, false⟩ ∧ w.pipes[i]? = some bs ∧
          Chunk n bs c t ∧ r = .ok c ∧ w' = w.fill i t
        | .write fd bs, r => ∃ i written, w.ends fd = some ⟨pid, i, true⟩ ∧
          w.pipes[i]? = some written ∧ r = .ok bs.length ∧ w' = w.fill i (written ++ bs)
        | .ext x, r => 0 < pid ∧ r = (answer w.service x).1 ∧ w' = w.serve answer x }

theorem waitingKernel_documented (answer : σ → X → Y × σ) (st : σ) :
    (waitingKernel answer st).Documented answer st where
  boot := rfl
  pipe := by
    rintro pid w r w' ⟨-, h | ⟨-, h⟩⟩
    · exact .inl h
    · exact .inr h
  spawn := by
    rintro pid w _ _ _ _ argv words r w' ⟨-, h | ⟨-, h⟩⟩
    · exact .inl h
    · exact .inr h
  inheritedFds := fun h => h.2
  read := by
    rintro pid w fd n r w' i hfd ⟨-, j, bs, c, t, hfd', hbs, hchunk, hr, hw⟩
    obtain ⟨⟩ := Option.some.inj (hfd.symm.trans hfd')
    exact ⟨bs, c, t, hbs, hchunk, hr, hw⟩
  write := by
    rintro pid w fd bs r w' i hfd ⟨-, j, written, hfd', hwritten, hr, hw⟩
    obtain ⟨⟩ := Option.some.inj (hfd.symm.trans hfd')
    exact ⟨written, hwritten, hr, hw⟩
  serve := fun h => h.2
  goes_on := by
    intro pid w op hdrained hready
    rcases op with (_ | ⟨_, _, _, _, argv, words⟩) | _ | ⟨fd, n⟩ | ⟨fd, bs⟩ | x
    case setup.pipe =>
      by_cases hfree : ∃ rd wr, w.Free rd wr
      · obtain ⟨rd, wr, hfree⟩ := hfree
        exact ⟨.ok (rd, wr), _, hdrained, .inl ⟨rd, wr, hfree, rfl, rfl⟩⟩
      · exact ⟨.error default, w, hdrained, .inr ⟨fun rd wr h => hfree ⟨rd, wr, h⟩, ⟨_, rfl⟩, rfl⟩⟩
    case setup.spawn =>
      by_cases hhas : ∃ fds, readFds words = some fds ∧ w.Has pid fds
      · obtain ⟨fds, hfds, hhas⟩ := hhas
        exact ⟨.ok 1, _, hdrained, .inl ⟨fds, 1, hfds, hhas, rfl, rfl⟩⟩
      · exact ⟨.error default, w, hdrained,
          .inr ⟨fun fds hfds h => hhas ⟨fds, hfds, h⟩, ⟨_, rfl⟩, rfl⟩⟩
    case inheritedFds =>
      exact ⟨_, w, hdrained, w.procs[pid], List.getElem?_eq_getElem hready, rfl, rfl⟩
    case read =>
      obtain ⟨i, bs, hfd, hbs, hne, hn⟩ := hready
      obtain ⟨c, t, hchunk⟩ := exists_chunk hn hne
      exact ⟨.ok c, _, hdrained, i, bs, c, t, hfd, hbs, hchunk, rfl, rfl⟩
    case write =>
      obtain ⟨i, written, hfd, hwritten⟩ := hready
      exact ⟨.ok bs.length, _, hdrained, i, written, hfd, hwritten, rfl, rfl⟩
    case ext => exact ⟨_, _, hdrained, hready, rfl, rfl⟩

section

attribute [local instance] Allocator.ample Lowercase.ascii Service.requestCodec
  Service.responseCodec

/-- The client of `greetUntil_transparent`, which exits with the number of its successes, on a
kernel on which a write waits until it has been read. -/
theorem greetUntil_spawned :
    ∃ as : List (Ask (Service.world.Request Bytes)),
      let xs := replies greet 0 ((as.filterMap Ask.payload).map Ask.incoming)
      Cooperates (waitingKernel greet 0) (entry [0] 8 (greetUntil.map Int8.ofNat))
        (questions (xs.map sessionRound)) (failure xs).isNone
        (fun code => Agreed greet 0 as fun _ => code = 1)
        fun code => code = ContractError.serverError.code ∧ failure xs ≠ none := by
  have hnearby : Always (nearby greet False) (returns fun code _ => code = 1)
      (greetUntil.map Int8.ofNat) ⟨0, [], false⟩ :=
    always_map ((greetUntil_nearby False).mono (by
      rintro (n | _) w h
      · exact congrArg Int8.ofNat h
      · exact h))
  obtain ⟨as, has⟩ := script_end_to_end greet greet_told 0 _ _ hnearby [0] rfl 8
  exact ⟨as, has _ (waitingKernel_documented greet 0)⟩

end

end CkbScriptIpc
