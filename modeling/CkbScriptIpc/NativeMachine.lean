import CkbScriptIpc.NativeSyscall

/-!
# The native host of a script

The five syscalls that `ckb_vm_entry` gives to the machine in which CKB-VM runs a script, between
the two pipes of the native side. The machine is a parameter. What it does between two calls, and
which syscalls it calls in which order, is left open.

* `Host.onPipe_eq_ecall`: the part of a WRITE that a script sees is the `ecall` of the native
  sessions;
* `script_streams`: what passes between the pipes and the memory of the script, in any sequence of
  calls.
-/

namespace CkbScriptIpc.Native

open Interaction SupportMachine

variable {X Y M : Type}

/-- What the host uses of the machine beside `SupportMachine`. -/
class ScriptMachine (M : Type) extends SupportMachine M where
  load8 : UInt64 → M → Except Trap UInt8 × M
  loadBytes : UInt64 → UInt64 → M → Except Trap Bytes × M

open ScriptMachine

/-- The machine with the pipes of its syscalls, and what has been printed. -/
structure Host (M : Type) where
  read : ReadSyscall
  write : WriteSyscall
  machine : M
  printed : List Bytes

abbrev HostMethod (X Y M : Type) [ScriptMachine M] (α : Type) :=
  Method (IoRes X Y) (VmError (Trap M)) (Host M) α

def spawnNumber : Int32 := 2601

def waitNumber : Int32 := 2602

def processIdNumber : Int32 := 2603

def pipeNumber : Int32 := 2604

def writeNumber : Int32 := 2605

def inheritedFdNumber : Int32 := 2607

def closeNumber : Int32 := 2608

def debugPrintSyscallNumber : Int32 := 2177

namespace Host

variable [ScriptMachine M] {α : Type}

/-- `machine.registers()[A7].to_i32()`. -/
def code (s : Host M) : Int32 := (register .a7 s.machine).toUInt32.toInt32

def arg (r : Reg) (s : Host M) : UInt64 := register r s.machine

def onMachine (f : M → Except (Trap M) α × M) : HostMethod X Y M α :=
  fun s => .ret ((f s.machine).1.mapError .fault, { s with machine := (f s.machine).2 })

def onPipe (x : Method (IoRes X Y) ErrorKind Pipe α) : HostMethod X Y M α :=
  Method.zoom (·.write.pipe) (fun p s => { s with write := ⟨p⟩ })
    (x.mapErr fun _ => .io "WRITE error")

/-- The call has succeeded. -/
def succeed : HostMethod X Y M Bool := do
  Method.modify fun s => { s with machine := setRegister .a0 0 s.machine }
  return true

end Host

/-! ## The syscalls -/

section

variable [ScriptMachine M]

/-- One turn of the loop that looks for the end of the string. The address is taken not to
overflow. -/
def DebugSyscall.byteTurn :
    UInt64 × Bytes → HostMethod X Y M ((UInt64 × Bytes) ⊕ Bytes)
  | (addr, buffer) => do
    let byte ← Host.onMachine (load8 addr)
    return if byte = 0 then .inr buffer else .inl (addr + 1, buffer ++ [byte])

def DebugSyscall.ecall : HostMethod X Y M Bool := do
  let s ← Method.get
  if s.code = spawnNumber ∨ s.code = waitNumber ∨ s.code = processIdNumber ∨
      s.code = pipeNumber then
    Method.throw (.io "unsupported syscalls: spawn, wait, process_id and pipe")
  else if s.code ≠ debugPrintSyscallNumber then return false
  else do
    let buffer ← Method.iter byteTurn (s.arg .a0, [])
    Method.modify fun s => { s with printed := s.printed ++ [fromUtf8Lossy buffer] }
    Host.succeed

variable [Allocator]

/-- `ReadSyscall::ecall` among the syscalls of a machine. -/
def ReadSyscall.ecallHost : HostMethod X Y M Bool :=
  Method.zoom (fun s => (s.read, s.machine)) (fun r s => { s with read := r.1, machine := r.2 })
    ReadSyscall.ecallVm

/-- `WriteSyscall::ecall`, with the machine. -/
def WriteSyscall.ecallHost : HostMethod X Y M Bool := do
  let s ← Method.get
  if s.code ≠ writeNumber then return false
  else if s.arg .a0 ≠ firstFdSlot + 1 then Method.throw (.io "can only write on pipe 3")
  else do
    let length ← Host.onMachine (load64 (s.arg .a2))
    -- a write of nothing must not reach the other end, where it would be the end of the stream
    if length = 0 then Host.succeed
    else do
      let bytes ← Host.onMachine (loadBytes (s.arg .a1) length)
      let _ ← Host.onPipe (Write.write bytes)
      Host.onMachine (store64 (s.arg .a2) (UInt64.ofNat bytes.length))
      Host.onMachine (addCyclesNoChecking spawnYieldCyclesBase)
      Host.succeed

def InheritedFdSyscall.ecall : HostMethod X Y M Bool := do
  let s ← Method.get
  if s.code ≠ inheritedFdNumber then return false
  else do
    let length ← Host.onMachine (load64 (s.arg .a1))
    if length < 2 then Method.throw (.io "length of inherited fd is less than 2")
    else do
      Host.onMachine (storeBytes (s.arg .a0) (wordBytes inheritedFds.1 ++ wordBytes inheritedFds.2))
      Host.onMachine (store64 (s.arg .a1) 2)
      Method.modify fun s => { s with machine := setRegister .a0 0 s.machine }
      Host.onMachine (addCyclesNoChecking spawnYieldCyclesBase)
      return true

def CloseSyscall.ecall : HostMethod X Y M Bool := do
  let s ← Method.get
  if s.code ≠ closeNumber then return false
  else Host.succeed

/-- What `ckb_vm_entry` registers. The build with `has_asm` has `DebugSyscall` a second time. -/
def syscalls : List (HostMethod X Y M Bool) :=
  [DebugSyscall.ecall, ReadSyscall.ecallHost, WriteSyscall.ecallHost, InheritedFdSyscall.ecall,
    CloseSyscall.ecall]

end

/-! ## Calls of other numbers -/

section

variable [ScriptMachine M] {s : Host M}

/-- A syscall passes on the calls of other numbers, and changes nothing. -/
def Passes (number : Int32 → Prop) (x : HostMethod X Y M Bool) : Prop :=
  ∀ s, ¬ number s.code → x s = .ret (.ok false, s)

theorem passes_debug : Passes (X := X) (Y := Y) (M := M)
    (fun c => (c = spawnNumber ∨ c = waitNumber ∨ c = processIdNumber ∨ c = pipeNumber) ∨
      c = debugPrintSyscallNumber) DebugSyscall.ecall := by
  intro s h
  rw [not_or] at h
  simp only [DebugSyscall.ecall, get_seq, if_neg h.1, ne_eq, h.2, not_false_eq_true, ↓reduceIte]
  rfl

theorem passes_read [Allocator] : Passes (X := X) (Y := Y) (M := M) (· = readNumber)
    ReadSyscall.ecallHost := by
  intro s h
  have hn : (register .a7 s.machine).toUInt32.toInt32 ≠ readNumber := h
  have hpassed : ReadSyscall.ecallVm (X := X) (Y := Y) (s.read, s.machine) =
      .ret (.ok false, s.read, s.machine) := by
    rw [ReadSyscall.ecallVm, get_seq, if_pos hn]
    rfl
  rw [ReadSyscall.ecallHost, Method.zoom, hpassed]
  rfl

theorem passes_write : Passes (X := X) (Y := Y) (M := M) (· = writeNumber)
    WriteSyscall.ecallHost := by
  intro s h
  rw [WriteSyscall.ecallHost, get_seq, if_pos h]
  rfl

theorem passes_inheritedFd : Passes (X := X) (Y := Y) (M := M) (· = inheritedFdNumber)
    InheritedFdSyscall.ecall := by
  intro s h
  rw [InheritedFdSyscall.ecall, get_seq, if_pos h]
  rfl

theorem passes_close : Passes (X := X) (Y := Y) (M := M) (· = closeNumber)
    CloseSyscall.ecall := by
  intro s h
  rw [CloseSyscall.ecall, get_seq, if_pos h]
  rfl

end

/-! ## What passes through the pipes

A machine that keeps a log of the bytes that READ puts into the memory of the script and of those
that WRITE takes out of it. -/

structure Logged (M : Type) where
  machine : M
  /-- The number of the last call. -/
  number : Int32
  received : Bytes
  offered : List Bytes

namespace Logged

variable {α F : Type}

def quietly (f : M → Except F α × M) (l : Logged M) : Except F α × Logged M :=
  ((f l.machine).1, { l with machine := (f l.machine).2 })

/-- Log the result. -/
def noting (f : M → Except F α × M) (note : α → Logged M → Logged M) (l : Logged M) :
    Except F α × Logged M :=
  match f l.machine with
  | (.ok a, m) => (.ok a, note a { l with machine := m })
  | (.error e, m) => (.error e, { l with machine := m })

def noteReceived (bs : Bytes) (l : Logged M) : Logged M :=
  if l.number = readNumber then { l with received := l.received ++ bs } else l

def noteOffered (bs : Bytes) (l : Logged M) : Logged M :=
  if l.number = writeNumber then { l with offered := l.offered ++ [bs] } else l

instance [ScriptMachine M] : ScriptMachine (Logged M) where
  Trap := Trap M
  register r l := register r l.machine
  setRegister r value l := { l with machine := setRegister r value l.machine }
  load64 addr := quietly (load64 addr)
  storeBytes addr bs := noting (storeBytes addr bs) fun _ => noteReceived bs
  store64 addr value := quietly (store64 addr value)
  addCyclesNoChecking n := quietly (addCyclesNoChecking n)
  load8 addr := quietly (load8 addr)
  loadBytes addr n := noting (loadBytes addr n) noteOffered

end Logged

/-- What the native side has not sent yet, and what it has been sent. -/
structure Wires where
  inbox : Upstream
  delivered : List Bytes

/-- A `send` meets a `recv`, or fails because the native side has dropped its end. -/
def wires : Env (IoRes X Y) Wires where
  pre
    | _, .read _ => True
    | _, .write _ => True
    | _, _ => False
  step
    | w, .read n, r, w' =>
      (feeding (X := X) (Y := Y)).step w.inbox (.read n) r w'.inbox ∧ w'.delivered = w.delivered
    | w, .write bs, r, w' =>
      (r = .ok bs.length ∧ w' = { w with delivered := w.delivered ++ [bs] }) ∨
        r = .error .other ∧ w' = w
    | _, _, _, _ => False

/-- What is sent of some buffers: the empty ones are skipped. -/
def sent (offered : List Bytes) : List Bytes := offered.filter (· ≠ [])

/-- The bytes from the native side are those in the memory of the script, `lost` and those in the
pipe; the messages to it are the buffers of the script without `refused`. -/
structure Flows (total received : Bytes) (offered : List Bytes) (r v : Pipe) (w : Wires)
    (lost refused : Bytes) : Prop where
  readEnd : r = holding r.buf
  writeEnd : v = Pipe.newPair.2
  incoming : received ++ lost ++ stream r w.inbox = total
  outgoing : sent offered = w.delivered ++ sent [refused]

/-- Nothing is lost on the way. -/
def Streams (total : Bytes) (s : Host (Logged M)) (w : Wires) : Prop :=
  Flows total s.machine.received s.machine.offered s.read.pipe s.write.pipe w [] []

/-- What an error can cost: bytes that were read and that the machine did not store, or a buffer
that the native side did not take. -/
def Broken {F : Type} (total : Bytes) (e : VmError F) (s : Host (Logged M)) (w : Wires) : Prop :=
  ∃ lost refused, (lost ≠ [] → ∃ f, e = .fault f) ∧ (refused ≠ [] → e = .io "WRITE error") ∧
    Flows total s.machine.received s.machine.offered s.read.pipe s.write.pipe w lost refused

section

variable {total : Bytes} {s : Host (Logged M)} {w : Wires} {r v : Pipe} {l : Logged M}
  {lost refused : Bytes}

theorem Streams.broken {F : Type} (h : Streams total s w) (e : VmError F) : Broken total e s w :=
  ⟨[], [], fun h => absurd rfl h, fun h => absurd rfl h, h⟩

theorem sent_append (offered : List Bytes) (bs : Bytes) :
    sent (offered ++ [bs]) = sent offered ++ sent [bs] := List.filter_append ..

/-- A read takes from the pipe what it hands out. -/
theorem read_wires {received : Bytes} {offered : List Bytes} {n : Nat}
    (h : Flows total received offered r v w [] []) :
    Always (wires (X := X) (Y := Y)) (succeeds fun bs r' w' =>
      Flows total received offered r' v w' bs []) (Read.read n r) w := by
  obtain ⟨hr, hv, hin, hout⟩ := h
  generalize r.buf = rest at hr
  subst hr
  rw [List.append_nil] at hin
  by_cases hrest : rest = []
  · subst hrest
    rw [Pipe.read_waiting rfl rfl]
    refine .call trivial ?_
    rintro x w' ⟨⟨data, hmessages, -, rfl⟩ | ⟨hmessages, -, rfl, hinbox⟩, hdelivered⟩
    · refine .ret ⟨rfl, hv, ?_, hdelivered ▸ hout⟩
      simp only [← hin, stream, holding, hmessages, List.flatten_cons, List.nil_append,
        ← List.append_assoc]
      rw [List.append_assoc received, List.take_append_drop]
    · refine .ret ⟨rfl, hv, ?_, hdelivered ▸ hout⟩
      rw [List.append_nil, hinbox]
      exact hin
  · rw [Pipe.read_buffered hrest]
    refine .ret ⟨rfl, hv, ?_, hout⟩
    simp only [← hin, stream, holding, ← List.append_assoc]
    rw [List.append_assoc received, List.take_append_drop]

/-- A buffer is delivered, unless it is empty or the native side is gone. -/
theorem write_wires {received : Bytes} {offered : List Bytes} {bs : Bytes}
    (h : Flows total received offered r v w [] []) :
    Always (wires (X := X) (Y := Y)) (resolves
      (fun _ v' w' => Flows total received (offered ++ [bs]) r v' w' [] [])
      fun _ v' w' => Flows total received (offered ++ [bs]) r v' w' [] bs)
      (Write.write bs v) w := by
  obtain ⟨hr, hv, hin, hout⟩ := h
  have hnil : sent [[]] = [] := rfl
  rw [hnil, List.append_nil] at hout
  by_cases hbs : bs = []
  · subst hbs
    refine .ret ⟨hr, hv, hin, ?_⟩
    rw [sent_append, hout]
  · have hone : sent [bs] = [bs] := List.filter_cons_of_pos (by simpa using hbs)
    rw [Pipe.write_cons hbs (congrArg Pipe.tx hv)]
    refine .call trivial ?_
    rintro x w' (⟨rfl, rfl⟩ | ⟨rfl, rfl⟩)
    · refine .ret ⟨hr, hv, hin, ?_⟩
      rw [sent_append, hout, hone, hnil, List.append_nil]
    · refine .ret ⟨hr, hv, hin, ?_⟩
      rw [sent_append, hout]

end

section

variable [ScriptMachine M] {total : Bytes} {s : Host (Logged M)} {w : Wires} {v : Pipe}
  {lost : Bytes}

/-! ### The calls of the machine -/

/-- What a READ of the script has still to store, with the pipe that it does not use. -/
def Storing (total : Bytes) (v : Pipe) (lost : Bytes) (s : ReadSyscall × Logged M) (w : Wires) :
    Prop :=
  Flows total s.2.received s.2.offered s.1.pipe v w lost [] ∧ s.2.number = readNumber

/-- A READ that fails, with the bytes that the machine has refused. -/
def Unstored {F : Type} (total : Bytes) (v : Pipe) (e : VmError F) (s : ReadSyscall × Logged M)
    (w : Wires) : Prop :=
  ∃ lost, (lost ≠ [] → ∃ f, e = .fault f) ∧ Storing total v lost s w

omit [ScriptMachine M] in
theorem Storing.unstored {F : Type} {s : ReadSyscall × Logged M} (h : Storing total v [] s w)
    (e : VmError F) : Unstored total v e s w :=
  ⟨[], fun h => absurd rfl h, h⟩

theorem storing_quiet {α : Type} (f : M → Except (Trap M) α × M) {s : ReadSyscall × Logged M}
    (h : Storing total v [] s w) :
    Safely (wires (X := X) (Y := Y)) (fun _ => True)
      (settles (fun _ => Storing total v []) (Unstored total v))
      (ReadSyscall.onMachine (M := Logged M) (Logged.quietly f) s) w := by
  rw [ReadSyscall.onMachine, Logged.quietly]
  cases (f s.2.machine).1 with
  | ok a => exact safely_ret trivial h
  | error e => exact safely_ret trivial (h.unstored _)

theorem storing_store (addr : UInt64) (bs : Bytes) {s : ReadSyscall × Logged M}
    (h : Storing total v bs s w) :
    Safely (wires (X := X) (Y := Y)) (fun _ => True)
      (settles (fun _ => Storing total v []) (Unstored total v))
      (ReadSyscall.onMachine (M := Logged M) (storeBytes addr bs) s) w := by
  have hstore : storeBytes addr bs s.2 =
      Logged.noting (storeBytes addr bs) (fun _ => Logged.noteReceived bs) s.2 := rfl
  rw [ReadSyscall.onMachine, hstore, Logged.noting]
  obtain ⟨stored, m⟩ := storeBytes addr bs s.2.machine
  cases stored with
  | error e => exact safely_ret trivial ⟨bs, fun _ => ⟨e, rfl⟩, h⟩
  | ok a =>
    refine safely_ret trivial ⟨⟨h.1.readEnd, h.1.writeEnd, ?_, ?_⟩, ?_⟩
    · simp only [Logged.noteReceived, if_pos h.2, List.append_nil]
      exact h.1.incoming
    · simp only [Logged.noteReceived, if_pos h.2]
      exact h.1.outgoing
    · simp only [Logged.noteReceived, if_pos h.2]
      exact h.2

theorem storing_read [Allocator] (n : Nat) {s : ReadSyscall × Logged M}
    (h : Storing total v [] s w) :
    Safely (wires (X := X) (Y := Y)) (fun _ => True)
      (settles (Storing total v) (Unstored total v)) (ReadSyscall.readInto n s) w := by
  rw [ReadSyscall.readInto]
  split
  · have hread : Always (wires (X := X) (Y := Y)) (succeeds fun bs r' w' =>
        Flows total s.2.received s.2.offered r' v w' bs []) (Read.read n s.1.pipe) w :=
      read_wires h.1
    refine (always_zoom_ok (t := s) (always_mapErr_ok hread)).safely.mono (fun _ hi => hi) ?_
    rintro (⟨e | bs, s'⟩ | _) w' - ho
    · exact ho.elim
    · obtain ⟨r', hr', rfl⟩ := ho
      exact ⟨hr', h.2⟩
    · exact ho.elim
  · exact safely_panic trivial trivial

theorem storing_deliver (bufferAddr lengthAddr : UInt64) {bs : Bytes} {s : ReadSyscall × Logged M}
    (h : Storing total v bs s w) :
    Safely (wires (X := X) (Y := Y)) (fun _ => True)
      (settles (fun _ => Storing total v []) (Unstored total v))
      (ReadSyscall.deliver bufferAddr lengthAddr bs s) w := by
  rw [ReadSyscall.deliver]
  refine safely_seq_settles (storing_store _ bs h) ?_ fun _ _ _ h => h
  intro _ s₁ w₁ hs₁
  refine safely_seq_settles (storing_quiet _ hs₁) ?_ fun _ _ _ h => h
  intro _ s₂ w₂ hs₂
  refine safely_seq_settles (storing_quiet _ hs₂) ?_ fun _ _ _ h => h
  intro _ s₃ w₃ hs₃
  exact safely_ret trivial hs₃

/-- What the machine does without a log. -/
theorem safely_quiet {α : Type} (f : M → Except (Trap M) α × M) (h : Streams total s w) :
    Safely (wires (X := X) (Y := Y)) (fun _ => True)
      (settles (fun _ s' w' => Streams total s' w' ∧ s'.machine.number = s.machine.number)
        (Broken total)) (Host.onMachine (M := Logged M) (Logged.quietly f) s) w := by
  rw [Host.onMachine, Logged.quietly]
  cases (f s.machine.machine).1 with
  | ok a => exact safely_ret trivial ⟨h, rfl⟩
  | error e => exact safely_ret trivial (h.broken _)

/-- Only READ is logged. -/
theorem safely_store (addr : UInt64) (bs : Bytes) (hn : s.machine.number ≠ readNumber)
    (h : Streams total s w) :
    Safely (wires (X := X) (Y := Y)) (fun _ => True)
      (settles (fun _ => Streams total) (Broken total))
      (Host.onMachine (M := Logged M) (storeBytes addr bs) s) w := by
  have hstore : storeBytes addr bs s.machine =
      Logged.noting (storeBytes addr bs) (fun _ => Logged.noteReceived bs) s.machine := rfl
  rw [Host.onMachine, hstore, Logged.noting]
  match storeBytes addr bs s.machine.machine with
  | (.error e, m) => exact safely_ret trivial (h.broken _)
  | (.ok (), m) =>
    refine safely_ret trivial ?_
    simp only [Logged.noteReceived, if_neg hn]
    exact h

/-- The buffer of a WRITE, before it is sent. -/
def Offering (total : Bytes) (offered : List Bytes) (bs : Bytes) (s : Host (Logged M))
    (w : Wires) : Prop :=
  Flows total s.machine.received offered s.read.pipe s.write.pipe w [] [] ∧
    s.machine.offered = offered ++ [bs]

theorem safely_load (addr n : UInt64) (hn : s.machine.number = writeNumber)
    (h : Streams total s w) :
    Safely (wires (X := X) (Y := Y)) (fun _ => True)
      (settles (Offering total s.machine.offered) (Broken total))
      (Host.onMachine (M := Logged M) (loadBytes addr n) s) w := by
  have hload : loadBytes addr n s.machine =
      Logged.noting (loadBytes addr n) Logged.noteOffered s.machine := rfl
  rw [Host.onMachine, hload, Logged.noting]
  match loadBytes addr n s.machine.machine with
  | (.error e, m) => exact safely_ret trivial (h.broken _)
  | (.ok bs, m) =>
    refine safely_ret trivial ?_
    simp only [Logged.noteOffered, if_pos hn]
    exact ⟨h, rfl⟩

theorem safely_write {offered : List Bytes} {bs : Bytes} (h : Offering total offered bs s w) :
    Safely (wires (X := X) (Y := Y)) (fun _ => True)
      (settles (fun _ => Streams total) (Broken total))
      (Host.onPipe (Write.write bs) s) w := by
  obtain ⟨hflows, hoffered⟩ := h
  have hwrite : Always (wires (X := X) (Y := Y)) _ (Write.write bs s.write.pipe) w :=
    write_wires hflows
  rw [← hoffered] at hwrite
  refine safely_map (safely_map (hwrite.safely.mono (fun _ hi => hi) ?_))
  rintro (⟨e | n, v'⟩ | _) w' - ho
  · exact ⟨[], bs, fun h => absurd rfl h, fun _ => rfl, ho⟩
  · exact ho
  · exact ho.elim

/-! ### The syscalls -/

/-- A syscall keeps the streams, or fails. -/
def Harmless (total : Bytes) (x : HostMethod X Y (Logged M) Bool) : Prop :=
  ∀ s w, Streams total s w → s.machine.number = s.code →
    Safely wires (fun _ => True) (settles (fun _ => Streams total) (Broken total)) (x s) w

/-- A syscall that is its own may do anything that keeps the streams. -/
theorem harmless_of_taken {number : Int32 → Prop} {x : HostMethod X Y (Logged M) Bool}
    (hx : Passes number x)
    (h : ∀ s w, Streams total s w → s.machine.number = s.code → number s.code →
      Safely wires (fun _ => True)
        (settles (fun _ => Streams total) (Broken total)) (x s) w) :
    Harmless total x := by
  intro s w hs hn
  by_cases hcode : number s.code
  · exact h s w hs hn hcode
  · rw [hx s hcode]
    exact safely_ret trivial hs

theorem safely_succeed (h : Streams total s w) :
    Safely (wires (X := X) (Y := Y)) (fun _ => True)
      (settles (fun _ => Streams total) (Broken total)) (Host.succeed s) w :=
  safely_ret trivial h

theorem harmless_debug : Harmless (X := X) (Y := Y) (M := M) total DebugSyscall.ecall := by
  refine harmless_of_taken passes_debug fun s w hs _ hcode => ?_
  rw [DebugSyscall.ecall, get_seq]
  split
  · exact safely_ret trivial (hs.broken _)
  · rename_i hsupported
    rw [if_neg (not_not_intro (hcode.resolve_left hsupported))]
    refine safely_seq_settles (P := fun _ => Streams total) ?_ ?_ fun _ _ _ h => h
    · refine safely_iter_settles (fun _ => Streams total) ?_ hs
      rintro ⟨addr, buffer⟩ s w hs
      refine safely_seq_settles (safely_quiet _ hs) ?_ fun _ _ _ h => h
      rintro byte s' w' ⟨hs', -⟩
      refine safely_ret trivial ?_
      split
      · exact hs'
      · exact hs'
    · exact fun _ s' w' hs' => safely_succeed (s := { s' with printed := _ }) hs'

theorem harmless_close : Harmless (X := X) (Y := Y) (M := M) total CloseSyscall.ecall := by
  refine harmless_of_taken passes_close fun s w hs _ hcode => ?_
  rw [CloseSyscall.ecall, get_seq, if_neg (not_not_intro hcode)]
  exact safely_succeed hs

theorem harmless_inheritedFd :
    Harmless (X := X) (Y := Y) (M := M) total InheritedFdSyscall.ecall := by
  refine harmless_of_taken passes_inheritedFd fun s w hs hn hcode => ?_
  rw [InheritedFdSyscall.ecall, get_seq, if_neg (not_not_intro hcode)]
  refine safely_seq_settles (safely_quiet _ hs) ?_ fun _ _ _ h => h
  rintro length s₁ w₁ ⟨hs₁, hn₁⟩
  have hother : s₁.machine.number ≠ readNumber := by
    rw [hn₁, hn, hcode]
    decide
  split
  · exact safely_ret trivial (hs₁.broken _)
  · refine safely_seq_settles (safely_store _ _ hother hs₁) ?_ fun _ _ _ h => h
    intro _ s₂ w₂ hs₂
    refine safely_seq_settles (safely_quiet _ hs₂) ?_ fun _ _ _ h => h
    rintro _ s₃ w₃ ⟨hs₃, -⟩
    rw [modify_seq]
    refine safely_seq_settles (safely_quiet (s := { s₃ with machine := _ }) _ hs₃) ?_
      fun _ _ _ h => h
    rintro _ s₄ w₄ ⟨hs₄, -⟩
    exact safely_ret trivial hs₄

theorem harmless_write :
    Harmless (X := X) (Y := Y) (M := M) total WriteSyscall.ecallHost := by
  refine harmless_of_taken passes_write fun s w hs hn hcode => ?_
  rw [WriteSyscall.ecallHost, get_seq, if_neg (not_not_intro hcode)]
  split
  · exact safely_ret trivial (hs.broken _)
  · refine safely_seq_settles (safely_quiet _ hs) ?_ fun _ _ _ h => h
    rintro length s₁ w₁ ⟨hs₁, hn₁⟩
    split
    · exact safely_succeed hs₁
    · refine safely_seq_settles (safely_load _ _ (hn₁.trans (hn.trans hcode)) hs₁) ?_
        fun _ _ _ h => h
      intro bs s₂ w₂ hs₂
      refine safely_seq_settles (safely_write hs₂) ?_ fun _ _ _ h => h
      intro _ s₃ w₃ hs₃
      refine safely_seq_settles (safely_quiet _ hs₃) ?_ fun _ _ _ h => h
      rintro _ s₄ w₄ ⟨hs₄, -⟩
      refine safely_seq_settles (safely_quiet _ hs₄) ?_ fun _ _ _ h => h
      rintro _ s₅ w₅ ⟨hs₅, -⟩
      exact safely_succeed hs₅

theorem harmless_read [Allocator] :
    Harmless (X := X) (Y := Y) (M := M) total ReadSyscall.ecallHost := by
  refine harmless_of_taken passes_read fun s w hs hn hcode => ?_
  have hstoring : Storing total s.write.pipe [] (s.read, s.machine) w := ⟨hs, hn.trans hcode⟩
  have hread : Safely (wires (X := X) (Y := Y)) (fun _ => True)
      (settles (fun _ => Storing total s.write.pipe []) (Unstored total s.write.pipe))
      (ReadSyscall.ecallVm (s.read, s.machine)) w := by
    have hread : ¬ (register .a7 s.machine).toUInt32.toInt32 ≠ readNumber := not_not_intro hcode
    rw [ReadSyscall.ecallVm, get_seq, if_neg hread]
    split
    · exact safely_ret trivial (hstoring.unstored _)
    · refine safely_seq_settles (storing_quiet _ hstoring) ?_ fun _ _ _ h => h
      intro length s₁ w₁ hs₁
      refine safely_seq_settles (storing_read _ hs₁) ?_ fun _ _ _ h => h
      intro bs s₂ w₂ hs₂
      exact storing_deliver _ _ hs₂
  refine (safely_zoom_settles (t := s) hread).settles_mono ?_ ?_
  · rintro b _ w' - ⟨s', hs', rfl⟩
    exact hs'.1
  · rintro e _ w' - ⟨s', ⟨lost, hlost, hs'⟩, rfl⟩
    exact ⟨lost, [], hlost, fun h => absurd rfl h, hs'.1⟩

theorem syscalls_harmless [Allocator] :
    ∀ x ∈ (syscalls : List (HostMethod X Y (Logged M) Bool)), Harmless total x := by
  simp only [syscalls, List.mem_cons, List.not_mem_nil, or_false]
  rintro x (rfl | rfl | rfl | rfl | rfl)
  · exact harmless_debug
  · exact harmless_read
  · exact harmless_write
  · exact harmless_inheritedFd
  · exact harmless_close

end

/-- What a script sees of a WRITE is `WriteSyscall.ecall`. -/
theorem Host.onPipe_eq_ecall [ScriptMachine M] (bs : Bytes) (s : Host M) :
    Host.onPipe (X := X) (Y := Y) (Write.write bs) s =
      (WriteSyscall.ecall (firstFdSlot + 1) bs s.write).map fun r =>
        (r.1.mapError .io, { s with write := r.2 }) := by
  by_cases hbs : bs = []
  · subst hbs
    rfl
  · have hwrite : Write.write (X := X) (Y := Y) bs s.write.pipe = .panic ∨
        Write.write (X := X) (Y := Y) bs s.write.pipe =
          .call (.write bs) (Pipe.wrote bs s.write.pipe) := by
      cases htx : s.write.pipe.tx with
      | none =>
        left
        simp only [Write.write, if_neg hbs, get_seq, htx]
        rfl
      | some tx => exact .inr (Pipe.write_cons hbs htx)
    rw [WriteSyscall.ecall, if_neg (not_not_intro rfl), if_neg hbs]
    show Prog.map _ (Prog.map _ (Write.write bs s.write.pipe)) = Prog.map _ (Prog.bind
      (Prog.map _ (Prog.map _ (Write.write bs s.write.pipe))) _)
    rcases hwrite with hwrite | hwrite
    · rw [hwrite]
      rfl
    · rw [hwrite]
      refine congrArg (Prog.call (StreamOp.write bs)) (funext fun r => ?_)
      cases r <;> rfl

/-! ### No empty messages -/

section

variable {W α : Type} {E : Env (IoRes X Y) W} {I : W → Prop}

theorem keeps_set {ε S : Type} (s : S) :
    KeepsWorld E I True (Method.set s : Method (IoRes X Y) ε S Unit) :=
  keepsWorld_modify fun _ => s

theorem keeps_unwrap {ε S : Type} (o : Option α) :
    KeepsWorld E I True (Method.lift (Prog.unwrap o) : Method (IoRes X Y) ε S α) := by
  cases o with
  | none => exact keeps_panic fun _ _ => trivial
  | some a => exact keeps_pure a

theorem Pipe.read_keeps (h : ∀ {w r w'}, I w → E.step w (.read 0) r w' → I w') (n : Nat) :
    KeepsWorld E I True (Read.read n : Method (IoRes X Y) ErrorKind Pipe Bytes) := by
  have hcopy : KeepsWorld E I True (Pipe.copyOut n : Method (IoRes X Y) ErrorKind Pipe Bytes) :=
    keeps_seq keeps_get fun _ => keeps_seq (keeps_set _) fun _ => keeps_pure _
  refine keeps_seq keeps_get fun s => ?_
  split
  · exact hcopy
  · refine keeps_seq (keeps_unwrap _) fun rx => keeps_seq (keeps_call (fun _ _ _ => h) .ok) ?_
    rintro (e | data)
    · exact keeps_pure _
    · exact keeps_seq (keeps_set _) fun _ => hcopy

theorem Pipe.write_keeps (h : ∀ {w bs r w'}, bs ≠ [] → I w → E.step w (.write bs) r w' → I w')
    (bs : Bytes) :
    KeepsWorld E I True (Write.write bs : Method (IoRes X Y) ErrorKind Pipe Nat) := by
  by_cases hbs : bs = []
  · simp only [Write.write, if_pos hbs]
    exact keeps_pure _
  · simp only [Write.write, if_neg hbs]
    refine keeps_seq keeps_get fun s => ?_
    refine keeps_seq (keeps_unwrap _) fun tx => ?_
    refine keeps_seq (keeps_call (fun _ _ _ => h hbs) .ok) ?_
    rintro (e | n)
    · exact keeps_throw _
    · exact keeps_pure _

variable [ScriptMachine M]

theorem Host.onMachine_keeps (f : M → Except (Trap M) α × M) :
    KeepsWorld E I True (onMachine f : HostMethod X Y M α) :=
  fun _ _ _ hi => safely_ret hi trivial

theorem ReadSyscall.onMachine_keeps (f : M → Except (Trap M) α × M) :
    KeepsWorld E I True (onMachine f : Method (IoRes X Y) (VmError (Trap M)) (ReadSyscall × M) α) :=
  fun _ _ _ hi => safely_ret hi trivial

theorem Host.succeed_keeps : KeepsWorld E I True (succeed : HostMethod X Y M Bool) :=
  keeps_seq (keepsWorld_modify _) fun _ => keeps_pure _

variable [Allocator]

theorem ReadSyscall.ecallVm_keeps (h : ∀ {w r w'}, I w → E.step w (.read 0) r w' → I w') :
    KeepsWorld E I True
      (ecallVm : Method (IoRes X Y) (VmError (Trap M)) (ReadSyscall × M) Bool) := by
  refine keeps_seq keeps_get fun s => ?_
  split
  · exact keeps_pure _
  · split
    · exact keeps_throw _
    · refine keeps_seq (onMachine_keeps _) fun length => keeps_seq ?_ fun bs => ?_
      · rw [readInto]
        split
        · exact keepsWorld_zoom (keeps_mapErr (Pipe.read_keeps h _) _) _ _
        · exact keeps_panic fun _ _ => trivial
      · refine keeps_seq (onMachine_keeps _) fun _ => keeps_seq (onMachine_keeps _) fun _ => ?_
        refine keeps_seq (onMachine_keeps _) fun _ => keeps_seq (keepsWorld_modify _) fun _ => ?_
        exact keeps_pure _

theorem syscalls_keeps (hread : ∀ {w r w'}, I w → E.step w (.read 0) r w' → I w')
    (hwrite : ∀ {w bs r w'}, bs ≠ [] → I w → E.step w (.write bs) r w' → I w') :
    ∀ x ∈ (syscalls : List (HostMethod X Y M Bool)), KeepsWorld E I True x := by
  simp only [syscalls, List.mem_cons, List.not_mem_nil, or_false]
  rintro x (rfl | rfl | rfl | rfl | rfl)
  · refine keeps_seq keeps_get fun s => ?_
    split
    · exact keeps_throw _
    · split
      · exact keeps_pure _
      · refine keeps_seq (keeps_iter (fun _ => ?_) _) fun _ => ?_
        · exact keeps_seq (Host.onMachine_keeps _) fun _ => keeps_pure _
        · exact keeps_seq (keepsWorld_modify _) fun _ => Host.succeed_keeps
  · exact keepsWorld_zoom (ReadSyscall.ecallVm_keeps hread) _ _
  · refine keeps_seq keeps_get fun s => ?_
    split
    · exact keeps_pure _
    · split
      · exact keeps_throw _
      · refine keeps_seq (Host.onMachine_keeps _) fun length => ?_
        split
        · exact Host.succeed_keeps
        · refine keeps_seq (Host.onMachine_keeps _) fun bs => ?_
          refine keeps_seq (keepsWorld_zoom
            (keeps_mapErr (Pipe.write_keeps hwrite _) _) _ _) fun _ => ?_
          refine keeps_seq (Host.onMachine_keeps _) fun _ => ?_
          exact keeps_seq (Host.onMachine_keeps _) fun _ => Host.succeed_keeps
  · refine keeps_seq keeps_get fun s => ?_
    split
    · exact keeps_pure _
    · refine keeps_seq (Host.onMachine_keeps _) fun length => ?_
      split
      · exact keeps_throw _
      · refine keeps_seq (Host.onMachine_keeps _) fun _ => ?_
        refine keeps_seq (Host.onMachine_keeps _) fun _ => ?_
        refine keeps_seq (keepsWorld_modify _) fun _ => ?_
        exact keeps_seq (Host.onMachine_keeps _) fun _ => keeps_pure _
  · refine keeps_seq keeps_get fun s => ?_
    split
    · exact keeps_pure _
    · exact Host.succeed_keeps

/-- The native side is never sent an empty message, which a read would take for the end. -/
theorem wires_no_empty {x : HostMethod X Y M Bool} (hx : x ∈ syscalls) (s : Host M) {w : Wires}
    (hw : [] ∉ w.delivered) :
    Safely (wires (X := X) (Y := Y)) (fun w => [] ∉ w.delivered) (fun _ _ => True) (x s) w := by
  have hkeeps := syscalls_keeps (M := M) (X := X) (Y := Y) (E := wires)
    (I := fun w => [] ∉ w.delivered) ?_ ?_ x hx s w trivial hw
  · exact hkeeps.mono (fun _ hi => hi) fun _ _ _ _ => trivial
  · rintro w r w' hw ⟨-, hdelivered⟩
    rwa [hdelivered]
  · rintro w bs r w' hbs hw (⟨-, rfl⟩ | ⟨-, rfl⟩)
    · simp only [List.mem_append, List.mem_singleton, not_or]
      exact ⟨hw, fun h => hbs h.symm⟩
    · exact hw

end

/-! ### Sequences of calls -/

/-- The machine that `ckb_vm_entry` runs, with a log. -/
def Host.start (m : M) : Host (Logged M) :=
  ⟨⟨Pipe.newPair.1⟩, ⟨Pipe.newPair.2⟩, ⟨m, 0, [], []⟩, []⟩

/-- The machine has got to `m`, where the script makes a call. -/
def Host.calling [ScriptMachine M] (s : Host (Logged M)) (m : M) : Host (Logged M) :=
  { s with machine := { s.machine with
      machine := m, number := (register .a7 m).toUInt32.toInt32 } }

/-- The calls that have succeeded so far. Before each of them the machine may have got anywhere,
and the call is one of the syscalls; it need not be the one that has its number. -/
inductive Calls [Allocator] [ScriptMachine M] (X Y : Type) (m : M) (inbox : Upstream) :
    Host (Logged M) → Wires → Prop
  | none : Calls X Y m inbox (Host.start m) ⟨inbox, []⟩
  | call {s s' : Host (Logged M)} {w w' : Wires} {m' : M} {x : HostMethod X Y (Logged M) Bool}
      {taken : Bool} : Calls X Y m inbox s w → x ∈ syscalls →
      Ends wires (x (s.calling m')) w (.ret (.ok taken, s')) w' → Calls X Y m inbox s' w'

section

variable [Allocator] [ScriptMachine M] {m : M} {inbox : Upstream} {s : Host (Logged M)} {w : Wires}

/-- What one call of the script keeps, whatever it has done before. -/
theorem call_streams {total : Bytes} {x : HostMethod X Y (Logged M) Bool} (hx : x ∈ syscalls)
    (m' : M) (hs : Streams total s w) (hw : [] ∉ w.delivered) :
    Safely (wires (X := X) (Y := Y)) (fun w => [] ∉ w.delivered)
      (settles (fun _ => Streams total) (Broken total)) (x (s.calling m')) w :=
  fun p' w' hr => ⟨(wires_no_empty hx (s.calling m') hw p' w' hr).1,
    (syscalls_harmless x hx (s.calling m') w hs rfl p' w' hr).2⟩

theorem Calls.streams (h : Calls X Y m inbox s w) :
    Streams inbox.messages.flatten s w ∧ [] ∉ w.delivered := by
  induction h with
  | none => exact ⟨⟨rfl, rfl, rfl, rfl⟩, List.not_mem_nil⟩
  | call _ hx hends ih =>
    obtain ⟨hinv, hsettles⟩ := call_streams hx _ ih.1 ih.2 _ _ hends
    exact ⟨hsettles _ rfl, hinv⟩

end

end CkbScriptIpc.Native
