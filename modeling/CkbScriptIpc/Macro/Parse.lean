import Mathlib.Data.List.Basic
import Mathlib.Tactic.Common

/-!
# What the attribute `service` reads

The tokens of a service trait, as far as the macro looks into them, and the two
parsers of the macro, with the errors that they collect. The grammar itself is that
of `syn`: attributes, names, arguments and types come as it has parsed them.

`Service.parse_ok_iff`: a trait is accepted exactly when every argument is an
identifier with a type and no method is written `new` or `serve`.
-/

namespace CkbScriptIpc.Macro

/-- The text of tokens that the macro copies without reading them. -/
abbrev Tokens := String

/-- An identifier, which is raw when it is written with `r#`. -/
structure Ident where
  raw : Bool
  sym : String
  deriving DecidableEq

namespace Ident

def new (name : String) : Ident := ⟨false, name⟩

/-- What `Display` prints, and what `==` compares with a text. -/
def toString (ident : Ident) : String := if ident.raw then "r#" ++ ident.sym else ident.sym

def unraw (ident : Ident) : Ident := ⟨false, ident.sym⟩

@[simp] theorem toString_new (name : String) : (new name).toString = name := rfl

@[simp] theorem toString_unraw (ident : Ident) : ident.unraw.toString = ident.sym := rfl

/-- Only the raw names begin with `r#`. -/
theorem toString_eq_iff {ident : Ident} {name : String} (hname : name.toList.head? ≠ some 'r') :
    ident.toString = name ↔ ident = new name := by
  obtain ⟨raw, sym⟩ := ident
  cases raw with
  | false => simp [toString, new]
  | true =>
    simp only [toString, new, if_true, mk.injEq, Bool.true_eq_false, false_and, iff_false]
    rintro rfl
    exact hname (by simp)

end Ident

structure PathSegment where
  ident : Ident
  /-- `none` is `PathArguments::None`. -/
  arguments : Option Tokens
  deriving DecidableEq

structure Path where
  leadingColon : Bool
  segments : List PathSegment
  deriving DecidableEq

def Path.getIdent (path : Path) : Option Ident :=
  match path.leadingColon, path.segments with
  | false, [⟨ident, none⟩] => some ident
  | _, _ => none

def Path.ofIdent (ident : Ident) : Path := ⟨false, [⟨ident, none⟩]⟩

inductive Meta
  | path (path : Path)
  | list (path : Path) (tokens : Tokens)
  | nameValue (path : Path) (value : Tokens)
  deriving DecidableEq

inductive AttrStyle
  | outer
  | inner
  deriving DecidableEq

structure Attribute where
  style : AttrStyle
  content : Meta
  deriving DecidableEq

/-- `Attribute::parse_outer`, on the insides of the attributes that stand there. -/
def Attribute.parseOuter (contents : List Meta) : List Attribute := contents.map (⟨.outer, ·⟩)

inductive Pat
  | ident (tokens : Tokens)
  | other (tokens : Tokens)
  deriving DecidableEq

def Pat.tokens : Pat → Tokens
  | .ident tokens | .other tokens => tokens

structure PatType where
  attrs : List Attribute
  pat : Pat
  ty : Tokens
  deriving DecidableEq

inductive FnArg
  | typed (captured : PatType)
  | receiver (tokens : Tokens)
  deriving DecidableEq

inductive ReturnType
  | default
  | type (ty : Tokens)
  deriving DecidableEq

/-- A method of the trait as it is written. -/
structure MethodTokens where
  attrs : List Meta
  ident : Ident
  args : List FnArg
  output : ReturnType

/-- The trait as it is written. -/
structure TraitTokens where
  attrs : List Meta
  vis : Tokens
  ident : Ident
  methods : List MethodTokens

structure IpcMethod where
  attrs : List Attribute
  ident : Ident
  args : List PatType
  output : ReturnType
  deriving DecidableEq

structure Service where
  attrs : List Attribute
  vis : Tokens
  ident : Ident
  ipcs : List IpcMethod
  deriving DecidableEq

/-- `syn::Error`, with the tokens that its span covers. -/
structure Error where
  span : Tokens
  message : String
  deriving DecidableEq

abbrev Errors := Except (List Error) Unit

/-- `extend_errors!` -/
def extendErrors (errors : Errors) (e : Error) : Errors :=
  match errors with
  | .ok () => .error [e]
  | .error errors => .error (errors ++ [e])

/-- The errors of a loop once it has come to an end. -/
def verdict : List Error → Errors
  | [] => .ok ()
  | errors => .error errors

theorem extendErrors_verdict (errors : List Error) (e : Error) :
    extendErrors (verdict errors) e = verdict (errors ++ [e]) := by
  cases errors <;> rfl

/-! ## Methods -/

namespace IpcMethod

/-- What the loop over the arguments makes of one of them. -/
def checkArg : FnArg → Except Error PatType
  | .typed ⟨attrs, .ident name, ty⟩ => .ok ⟨attrs, .ident name, ty⟩
  | .typed captured => .error ⟨captured.pat.tokens, "patterns aren't allowed in IPC args"⟩
  | .receiver tokens => .error ⟨tokens, "method args cannot start with self"⟩

def pushArg (state : List PatType × Errors) (arg : FnArg) : List PatType × Errors :=
  match checkArg arg with
  | .ok captured => (state.1 ++ [captured], state.2)
  | .error e => (state.1, extendErrors state.2 e)

def parse (input : MethodTokens) : Except (List Error) IpcMethod := do
  let (args, errors) := input.args.foldl pushArg ([], .ok ())
  errors
  return ⟨Attribute.parseOuter input.attrs, input.ident, args, input.output⟩

def captured (arg : FnArg) : Option PatType := (checkArg arg).toOption

def refusal (arg : FnArg) : Option Error :=
  match checkArg arg with
  | .ok _ => none
  | .error e => some e

theorem pushArg_verdict (taken : List PatType) (errors : List Error) (arg : FnArg) :
    pushArg (taken, verdict errors) arg =
      (taken ++ (captured arg).toList, verdict (errors ++ (refusal arg).toList)) := by
  rcases harg : checkArg arg with e | a
  · simp [pushArg, captured, refusal, harg, Except.toOption, extendErrors_verdict]
  · simp [pushArg, captured, refusal, harg, Except.toOption]

theorem foldl_pushArg (args : List FnArg) (taken : List PatType) (errors : List Error) :
    args.foldl pushArg (taken, verdict errors) =
      (taken ++ args.filterMap captured, verdict (errors ++ args.filterMap refusal)) := by
  induction args generalizing taken errors with
  | nil => simp
  | cons arg args ih =>
    rw [List.foldl_cons, pushArg_verdict, ih, List.filterMap_cons, List.filterMap_cons]
    cases captured arg <;> cases refusal arg <;> simp

theorem refusal_eq_none {arg : FnArg} : refusal arg = none ↔ (captured arg).isSome := by
  unfold refusal captured
  cases checkArg arg <;> simp [Except.toOption]

/-- A method with arguments that the parser takes. -/
def Accepted (input : MethodTokens) : Prop := ∀ arg ∈ input.args, (captured arg).isSome

instance (input : MethodTokens) : Decidable (Accepted input) :=
  inferInstanceAs (Decidable (∀ arg ∈ input.args, (captured arg).isSome))

/-- The method that the parser makes of an accepted one. -/
def parsed (input : MethodTokens) : IpcMethod :=
  ⟨Attribute.parseOuter input.attrs, input.ident, input.args.filterMap captured, input.output⟩

/-- Every argument that the parser refuses adds its error, in order. -/
theorem parse_eq (input : MethodTokens) :
    parse input = (verdict (input.args.filterMap refusal)).map fun _ => parsed input := by
  have hloop := foldl_pushArg input.args [] []
  simp only [verdict, List.nil_append] at hloop
  rw [parse, hloop]
  cases input.args.filterMap refusal <;> rfl

theorem parse_ok_iff {input : MethodTokens} {ipc : IpcMethod} :
    parse input = .ok ipc ↔ Accepted input ∧ ipc = parsed input := by
  have hnil : input.args.filterMap refusal = [] ↔ Accepted input := by
    simp only [List.filterMap_eq_nil_iff, refusal_eq_none, Accepted]
  rw [parse_eq, ← hnil]
  cases input.args.filterMap refusal with
  | nil => simp [verdict, Except.map, eq_comm]
  | cons e errors => simp [verdict, Except.map]

theorem mapM_parse_ok_iff {inputs : List MethodTokens} {ipcs : List IpcMethod} :
    inputs.mapM parse = .ok ipcs ↔
      (∀ input ∈ inputs, Accepted input) ∧ ipcs = inputs.map parsed := by
  induction inputs generalizing ipcs with
  | nil => simp [pure, Except.pure, eq_comm]
  | cons input inputs ih =>
    rw [List.mapM_cons, List.forall_mem_cons, List.map_cons]
    rcases hparse : parse input with errors | ipc
    · have hnot : ¬ Accepted input := by
        intro h
        have hok := parse_ok_iff.mpr ⟨h, rfl⟩
        simp [hparse] at hok
      simp [bind, Except.bind, hnot]
    · obtain ⟨haccepted, rfl⟩ := parse_ok_iff.mp hparse
      rcases hrest : inputs.mapM parse with errors | rest
      · have hnot : ¬ ∀ input ∈ inputs, Accepted input := by
          intro h
          have hok := ih.mpr ⟨h, rfl⟩
          simp [hrest] at hok
        simp [bind, Except.bind, hnot]
      · obtain ⟨hall, rfl⟩ := ih.mp hrest
        simpa [bind, Except.bind, pure, Except.pure, haccepted, eq_comm] using fun _ => hall

end IpcMethod

/-! ## Services -/

namespace Service

/-- The check of a name against that of a generated function. -/
def conflict (written generated : String) (ipc : IpcMethod) : Option Error :=
  if ipc.ident.toString = written then
    some ⟨ipc.ident.toString, "method name conflicts with generated fn `" ++ generated ++ "`"⟩
  else none

def extendWith (errors : Errors) : Option Error → Errors
  | none => errors
  | some e => extendErrors errors e

/-- One round of the loop over the names. -/
def checkName (ident : Ident) (errors : Errors) (ipc : IpcMethod) : Errors :=
  let errors := extendWith errors (conflict "new" (ident.unraw.toString ++ "Client::new") ipc)
  extendWith errors (conflict "serve" (ident.toString ++ "::serve") ipc)

def parse (input : TraitTokens) : Except (List Error) Service := do
  let ipcs ← input.methods.mapM IpcMethod.parse
  ipcs.foldl (checkName input.ident) (.ok ())
  return ⟨Attribute.parseOuter input.attrs, input.vis, input.ident, ipcs⟩

/-- The errors that a name gives. -/
def nameErrors (ident : Ident) (ipc : IpcMethod) : List Error :=
  (conflict "new" (ident.unraw.toString ++ "Client::new") ipc).toList ++
    (conflict "serve" (ident.toString ++ "::serve") ipc).toList

theorem extendWith_verdict (errors : List Error) (e : Option Error) :
    extendWith (verdict errors) e = verdict (errors ++ e.toList) := by
  cases e with
  | none => simp [extendWith]
  | some e => simp [extendWith, extendErrors_verdict]

theorem foldl_checkName (ident : Ident) (ipcs : List IpcMethod) (errors : List Error) :
    ipcs.foldl (checkName ident) (verdict errors) =
      verdict (errors ++ ipcs.flatMap (nameErrors ident)) := by
  induction ipcs generalizing errors with
  | nil => simp
  | cons ipc ipcs ih =>
    rw [List.foldl_cons, checkName, extendWith_verdict, extendWith_verdict, ih]
    simp [nameErrors]

theorem conflict_eq_none {written generated : String} {ipc : IpcMethod} :
    conflict written generated ipc = none ↔ ipc.ident.toString ≠ written := by
  simp [conflict]

theorem nameErrors_eq_nil {ident : Ident} {ipc : IpcMethod} :
    nameErrors ident ipc = [] ↔ ipc.ident ≠ .new "new" ∧ ipc.ident ≠ .new "serve" := by
  have hnew : ipc.ident.toString = "new" ↔ ipc.ident = .new "new" :=
    Ident.toString_eq_iff (by decide)
  have hserve : ipc.ident.toString = "serve" ↔ ipc.ident = .new "serve" :=
    Ident.toString_eq_iff (by decide)
  simp [nameErrors, conflict_eq_none, hnew, hserve]

/-- A trait with methods that the parser takes, under names that it takes. -/
def Accepted (input : TraitTokens) : Prop :=
  ∀ method ∈ input.methods,
    IpcMethod.Accepted method ∧ method.ident ≠ .new "new" ∧ method.ident ≠ .new "serve"

instance (input : TraitTokens) : Decidable (Accepted input) :=
  inferInstanceAs (Decidable (∀ method ∈ input.methods,
    IpcMethod.Accepted method ∧ method.ident ≠ .new "new" ∧ method.ident ≠ .new "serve"))

/-- The service that the parser makes of an accepted trait. -/
def parsed (input : TraitTokens) : Service :=
  ⟨Attribute.parseOuter input.attrs, input.vis, input.ident,
    input.methods.map IpcMethod.parsed⟩

theorem parse_ok_iff {input : TraitTokens} {svc : Service} :
    parse input = .ok svc ↔ Accepted input ∧ svc = parsed input := by
  unfold parse
  cases hipcs : input.methods.mapM IpcMethod.parse with
  | error errors =>
    have hnot : ¬ Accepted input := by
      intro h
      have hok := IpcMethod.mapM_parse_ok_iff.mpr ⟨fun method hm => (h method hm).1, rfl⟩
      simp [hipcs] at hok
    simp [bind, Except.bind, hnot]
  | ok ipcs =>
    obtain ⟨hall, rfl⟩ := IpcMethod.mapM_parse_ok_iff.mp hipcs
    have hloop := foldl_checkName input.ident (input.methods.map IpcMethod.parsed) []
    simp only [verdict, List.nil_append] at hloop
    have hnames : (input.methods.map IpcMethod.parsed).flatMap (nameErrors input.ident) = [] ↔
        Accepted input := by
      simp only [List.flatMap_eq_nil_iff, nameErrors_eq_nil, List.forall_mem_map]
      exact forall₂_congr fun method hm => ⟨fun h => ⟨hall method hm, h⟩, And.right⟩
    rw [← hnames]
    cases hes : (input.methods.map IpcMethod.parsed).flatMap (nameErrors input.ident) with
    | nil => simp [hloop, hes, parsed, bind, Except.bind, pure, Except.pure, eq_comm]
    | cons e errors => simp [hloop, hes, bind, Except.bind]

theorem not_accepted {input : TraitTokens} {errors : List Error}
    (h : parse input = .error errors) : ¬ Accepted input := by
  intro haccepted
  have hok := parse_ok_iff.mpr ⟨haccepted, rfl⟩
  rw [h] at hok
  cases hok

end Service

end CkbScriptIpc.Macro
