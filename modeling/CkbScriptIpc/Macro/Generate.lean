import CkbScriptIpc.Service
import CkbScriptIpc.Words
import CkbScriptIpc.Macro.Parse

/-!
# What the attribute `service` generates

The generators of the macro, over the parallel lists of `ServiceGenerator`, and what
they give for each method. Of the generated functions, those keep their bodies that
differ from one method to the next.

`service_isSome_iff`: the macro returns for an accepted trait exactly when every name can
be written as a variant. `Service.generates`: then each generator gives one item for each
method.
-/

namespace CkbScriptIpc.Macro

open Words

/-- The test of `collect_cfg_attrs`. -/
def Attribute.isCfg (att : Attribute) : Bool :=
  decide (att.style = .outer) &&
    match att.content with
    | .list path _ => decide (path.getIdent = some (.new "cfg"))
    | _ => false

def collectCfgAttrs (ipcs : List IpcMethod) : List (List Attribute) :=
  ipcs.map fun ipc => ipc.attrs.filter Attribute.isCfg

def ReturnType.tokens : ReturnType → Tokens
  | .type ty => ty
  | .default => "()"

/-! ## Generated items -/

/-- The head of a generated function. -/
structure Fn where
  attrs : List Attribute
  vis : Tokens
  ident : Ident
  receiver : Tokens
  args : List PatType
  output : Tokens
  deriving DecidableEq

structure Trait where
  attrs : List Attribute
  vis : Tokens
  ident : Ident
  ipcFns : List Fn
  server : Fn

/-- A stub of the client: the request that it builds, the name under which it calls, and
the variant in which it looks for what is returned. -/
structure Stub extends Fn where
  request : Ident
  requestPats : List Pat
  requestName : String
  response : Ident
  deriving DecidableEq

structure RequestVariant where
  attrs : List Attribute
  ident : Ident
  fields : List PatType
  deriving DecidableEq

structure ResponseVariant where
  attrs : List Attribute
  ident : Ident
  payload : Tokens
  deriving DecidableEq

/-- An arm of `serve`, which calls a method and wraps what it returns. -/
structure Arm where
  attrs : List Attribute
  request : Ident
  pats : List Pat
  method : Ident
  response : Ident
  deriving DecidableEq

structure ServiceGenerator where
  serviceIdent : Ident
  serverIdent : Ident
  clientIdent : Ident
  requestIdent : Ident
  responseIdent : Ident
  vis : Tokens
  attrs : List Attribute
  ipcs : List IpcMethod
  camelCaseIdents : List Ident
  methodIdents : List Ident
  requestNames : List String
  methodAttrs : List (List Attribute)
  methodCfgs : List (List Attribute)
  args : List (List PatType)
  returnTypes : List Tokens
  argPats : List (List Pat)

namespace ServiceGenerator

variable (g : ServiceGenerator)

def traitService : Trait where
  attrs := g.attrs
  vis := g.vis
  ident := g.serviceIdent
  ipcFns := (g.ipcs.zip g.returnTypes).map fun (ipc, output) =>
    ⟨ipc.attrs, "", ipc.ident, "&mut self", ipc.args, output⟩
  server := ⟨[], "", .new "server", "self", [], g.serverIdent.toString ++ "<Self>"⟩

/-- The arms of `match req`. -/
def implServeForServer : List Arm :=
  (g.methodCfgs.zip (g.camelCaseIdents.zip (g.argPats.zip g.methodIdents))).map
    fun (cfgs, camelCase, pats, method) => ⟨cfgs, camelCase, pats, method, camelCase⟩

def enumRequest : List RequestVariant :=
  (g.methodCfgs.zip (g.camelCaseIdents.zip g.args)).map
    fun (cfgs, camelCase, args) => ⟨cfgs, camelCase, args⟩

/-- The variants of the response have no attributes. -/
def enumResponse : List ResponseVariant :=
  (g.camelCaseIdents.zip g.returnTypes).map fun (camelCase, output) => ⟨[], camelCase, output⟩

def implClientNew : Fn :=
  ⟨[], g.vis, .new "new", "", [⟨[], .ident "reader", "R"⟩, ⟨[], .ident "writer", "W"⟩], "Self"⟩

def allowUnused : Attribute := ⟨.outer, .list (.ofIdent (.new "allow")) "unused"⟩

def implClientIpcMethods : List Stub :=
  (g.methodAttrs.zip (g.methodIdents.zip (g.args.zip (g.returnTypes.zip
    (g.camelCaseIdents.zip (g.argPats.zip g.requestNames)))))).map
    fun (attrs, method, args, output, camelCase, pats, requestName) =>
      ⟨⟨allowUnused :: attrs, g.vis, method, "&mut self", args, output⟩, camelCase, pats,
        requestName, camelCase⟩

/-- The first arm that takes a request of this variant. -/
def dispatch (request : Ident) : Option Arm :=
  g.implServeForServer.find? fun arm => arm.request = request

end ServiceGenerator

/-! ## The expansion -/

section

variable [Lowercase]

namespace IpcMethod

variable (ipc : IpcMethod)

/-- The name of the two variants, when there is one. -/
def camelCase : Option String := snakeToCamel ipc.ident.unraw.toString

def variantIdent : Ident := .new (ipc.camelCase.getD "")

def argPats : List Pat := ipc.args.map PatType.pat

def cfgs : List Attribute := ipc.attrs.filter Attribute.isCfg

def traitFn : Fn := ⟨ipc.attrs, "", ipc.ident, "&mut self", ipc.args, ipc.output.tokens⟩

def arm : Arm := ⟨ipc.cfgs, ipc.variantIdent, ipc.argPats, ipc.ident, ipc.variantIdent⟩

def requestVariant : RequestVariant := ⟨ipc.cfgs, ipc.variantIdent, ipc.args⟩

def responseVariant : ResponseVariant := ⟨[], ipc.variantIdent, ipc.output.tokens⟩

def stub (service : Ident) (vis : Tokens) : Stub :=
  ⟨⟨ServiceGenerator.allowUnused :: ipc.attrs, vis, ipc.ident, "&mut self", ipc.args,
    ipc.output.tokens⟩, ipc.variantIdent, ipc.argPats,
    service.toString ++ "." ++ ipc.ident.toString, ipc.variantIdent⟩

end IpcMethod

namespace Service

variable (svc : Service)

/-- `service`, up to the tokens. It is `none` when a name cannot be written as a variant. -/
def generator : Option ServiceGenerator := do
  let camelCaseFnNames ← svc.ipcs.mapM IpcMethod.camelCase
  let args := svc.ipcs.map IpcMethod.args
  let methods := svc.ipcs.map IpcMethod.ident
  return {
    serviceIdent := svc.ident
    serverIdent := .new ("Serve" ++ svc.ident.sym)
    clientIdent := .new (svc.ident.sym ++ "Client")
    requestIdent := .new (svc.ident.sym ++ "Request")
    responseIdent := .new (svc.ident.sym ++ "Response")
    vis := svc.vis
    attrs := svc.attrs
    ipcs := svc.ipcs
    camelCaseIdents := (svc.ipcs.zip camelCaseFnNames).map fun (_, name) => .new name
    methodIdents := methods
    requestNames := methods.map fun m => svc.ident.toString ++ "." ++ m.toString
    methodAttrs := svc.ipcs.map IpcMethod.attrs
    methodCfgs := collectCfgAttrs svc.ipcs
    args := args
    returnTypes := svc.ipcs.map fun ipc => ipc.output.tokens
    argPats := args.map fun args => args.map PatType.pat }

/-- What each generator gives, method by method. -/
structure Generates (g : ServiceGenerator) : Prop where
  vis : g.vis = svc.vis
  serviceIdent : g.serviceIdent = svc.ident
  camelCaseIdents : g.camelCaseIdents = svc.ipcs.map IpcMethod.variantIdent
  ipcFns : g.traitService.ipcFns = svc.ipcs.map IpcMethod.traitFn
  arms : g.implServeForServer = svc.ipcs.map IpcMethod.arm
  requests : g.enumRequest = svc.ipcs.map IpcMethod.requestVariant
  responses : g.enumResponse = svc.ipcs.map IpcMethod.responseVariant
  stubs : g.implClientIpcMethods = svc.ipcs.map fun ipc => ipc.stub svc.ident svc.vis

variable {svc}

theorem generator_isSome_iff :
    svc.generator.isSome ↔ ∀ ipc ∈ svc.ipcs, ipc.camelCase.isSome := by
  rw [← mapM_isSome_iff, generator]
  cases svc.ipcs.mapM IpcMethod.camelCase <;> rfl

theorem generates {g : ServiceGenerator} (h : svc.generator = some g) : svc.Generates g := by
  obtain ⟨names, hnames, hg⟩ := Option.bind_eq_some_iff.mp h
  obtain rfl : names = svc.ipcs.map fun ipc => ipc.camelCase.getD "" := by
    have hmap := mapM_eq_some_iff.mp hnames
    have hget := congrArg (List.map (Option.getD · "")) hmap
    simpa [Function.comp_def] using hget.symm
  obtain rfl := Option.some.inj hg
  constructor
  case vis => rfl
  case serviceIdent => rfl
  case camelCaseIdents => simp [zip_self_map, IpcMethod.variantIdent]
  case ipcFns => simp [ServiceGenerator.traitService, zip_self_map, IpcMethod.traitFn]
  case arms =>
    simp [ServiceGenerator.implServeForServer, collectCfgAttrs, zip_self_map, List.zip_map',
      IpcMethod.arm, IpcMethod.cfgs, IpcMethod.variantIdent, IpcMethod.argPats]
  case requests =>
    simp [ServiceGenerator.enumRequest, collectCfgAttrs, zip_self_map, List.zip_map',
      IpcMethod.requestVariant, IpcMethod.cfgs, IpcMethod.variantIdent]
  case responses =>
    simp [ServiceGenerator.enumResponse, zip_self_map, List.zip_map',
      IpcMethod.responseVariant, IpcMethod.variantIdent]
  case stubs =>
    simp [ServiceGenerator.implClientIpcMethods, zip_self_map, List.zip_map', IpcMethod.stub,
      IpcMethod.variantIdent, IpcMethod.argPats]

end Service

/-- The macro: `none` when it panics, and otherwise the errors or the generator. -/
def service (input : TraitTokens) : Option (Except (List Error) ServiceGenerator) :=
  match Service.parse input with
  | .error errors => some (.error errors)
  | .ok svc => svc.generator.map .ok

theorem service_ok_iff {input : TraitTokens} {g : ServiceGenerator} :
    service input = some (.ok g) ↔
      Service.Accepted input ∧ (Service.parsed input).generator = some g := by
  unfold service
  rcases hparse : Service.parse input with errors | svc
  · simp [Service.not_accepted hparse]
  · obtain ⟨haccepted, rfl⟩ := Service.parse_ok_iff.mp hparse
    simp [haccepted]

/-- A trait that is not accepted gives its errors, and an accepted one needs its variants. -/
theorem service_isSome_iff {input : TraitTokens} :
    (service input).isSome ↔
      (Service.Accepted input → ∀ method ∈ input.methods,
        (snakeToCamel method.ident.unraw.toString).isSome) := by
  unfold service
  rcases hparse : Service.parse input with errors | svc
  · simp [Service.not_accepted hparse]
  · obtain ⟨haccepted, rfl⟩ := Service.parse_ok_iff.mp hparse
    simp only [haccepted, Option.isSome_map, Service.generator_isSome_iff, Service.parsed,
      List.forall_mem_map, true_imp_iff]
    rfl

end

end CkbScriptIpc.Macro
