import CkbScriptIpc.Macro.Generate

/-!
# Methods under `cfg`

Which of the items that the macro generates for a method are left once the attributes
of conditional compilation have been evaluated.

`Valuation.allOrNone_iff`: the five items of each method are kept or dropped together exactly
when no method is dropped, because the variant of the response has no attributes.
-/

namespace CkbScriptIpc.Macro

/-- An attribute that can drop its item: `cfg` or `cfg_attr`, with arguments. -/
def Attribute.Conditional (att : Attribute) : Prop :=
  ∃ path tokens ident, att.content = .list path tokens ∧ path.getIdent = some ident ∧
    (ident.unraw = .new "cfg" ∨ ident.unraw = .new "cfg_attr")

/-- What becomes of the attributes in a configuration. -/
structure Valuation where
  active : Attribute → Bool
  unconditional : ∀ att, ¬ att.Conditional → active att = true

namespace Valuation

variable (v : Valuation)

/-- An item stays in the program when all its attributes are active. -/
def keeps (attrs : List Attribute) : Bool := attrs.all v.active

/-- Method by method, the items with attributes are kept when the function in the trait is. -/
structure Copied (g : ServiceGenerator) : Prop where
  stub : (g.implClientIpcMethods.map fun stub => v.keeps stub.attrs) =
    g.traitService.ipcFns.map fun f => v.keeps f.attrs
  request : (g.enumRequest.map fun variant => v.keeps variant.attrs) =
    g.traitService.ipcFns.map fun f => v.keeps f.attrs
  arm : (g.implServeForServer.map fun arm => v.keeps arm.attrs) =
    g.traitService.ipcFns.map fun f => v.keeps f.attrs

/-- All five items of a method are kept, or none. -/
structure AllOrNone (g : ServiceGenerator) : Prop extends v.Copied g where
  response : (g.enumResponse.map fun variant => v.keeps variant.attrs) =
    g.traitService.ipcFns.map fun f => v.keeps f.attrs

theorem keeps_iff {attrs : List Attribute} :
    v.keeps attrs = true ↔ ∀ att ∈ attrs, v.active att = true := by
  rw [keeps, List.all_eq_true]

theorem active_allowUnused : v.active ServiceGenerator.allowUnused = true := by
  apply v.unconditional
  rintro ⟨path, tokens, ident, hcontent, hident, hname⟩
  obtain ⟨rfl, -⟩ := Meta.list.inj hcontent
  obtain rfl := Option.some.inj hident
  revert hname
  decide

/-- A part of the attributes drops no method that all of them keep. -/
theorem keeps_cfgs {ipc : IpcMethod} (h : v.keeps ipc.attrs = true) :
    v.keeps ipc.cfgs = true := by
  rw [keeps_iff] at h ⊢
  exact fun att hatt => h att (List.mem_of_mem_filter hatt)

section

variable [Lowercase] {svc : Service} {g : ServiceGenerator}

/-- The stub has the attributes of the method, and one more that changes nothing. -/
theorem keeps_stub (ipc : IpcMethod) (service : Ident) (vis : Tokens) :
    v.keeps (ipc.stub service vis).attrs = v.keeps ipc.traitFn.attrs := by
  simp [keeps, IpcMethod.stub, IpcMethod.traitFn, active_allowUnused]

/-- The request and the arm go with the method when `collect_cfg_attrs` decides as all
attributes do. -/
theorem copied (hgen : svc.Generates g)
    (hcfgs : ∀ ipc ∈ svc.ipcs, v.keeps ipc.cfgs = v.keeps ipc.attrs) : v.Copied g := by
  constructor
  case stub =>
    rw [hgen.ipcFns, hgen.stubs, List.map_map, List.map_map, List.map_inj_left]
    exact fun ipc _ => v.keeps_stub ipc _ _
  case request =>
    rw [hgen.ipcFns, hgen.requests, List.map_map, List.map_map, List.map_inj_left]
    exact hcfgs
  case arm =>
    rw [hgen.ipcFns, hgen.arms, List.map_map, List.map_map, List.map_inj_left]
    exact hcfgs

/-- The variant of the response is always kept. -/
theorem response_iff (hgen : svc.Generates g) :
    ((g.enumResponse.map fun variant => v.keeps variant.attrs) =
      g.traitService.ipcFns.map fun f => v.keeps f.attrs) ↔
        ∀ ipc ∈ svc.ipcs, v.keeps ipc.attrs = true := by
  rw [hgen.ipcFns, hgen.responses, List.map_map, List.map_map, List.map_inj_left]
  exact forall₂_congr fun ipc _ => eq_comm

end

section

variable [Lowercase] {input : TraitTokens} {g : ServiceGenerator}

theorem allOrNone_iff (h : service input = some (.ok g)) :
    v.AllOrNone g ↔
      ∀ method ∈ input.methods, ∀ att ∈ Attribute.parseOuter method.attrs,
        v.active att = true := by
  have hgen := Service.generates (service_ok_iff.mp h).2
  have hkept : (∀ method ∈ input.methods,
      ∀ att ∈ Attribute.parseOuter method.attrs, v.active att = true) ↔
        ∀ ipc ∈ (Service.parsed input).ipcs, v.keeps ipc.attrs = true := by
    simp only [Service.parsed, List.forall_mem_map, keeps_iff]
    rfl
  rw [hkept, ← v.response_iff hgen]
  constructor
  · exact AllOrNone.response
  · intro hresponse
    refine ⟨v.copied hgen fun ipc hipc => ?_, hresponse⟩
    have hipc := (v.response_iff hgen).mp hresponse ipc hipc
    exact (v.keeps_cfgs hipc).trans hipc.symm

end

end Valuation

/-! ## A method for debugging -/

def debugOnly : Meta := .list (.ofIdent (.new "cfg")) "debug_assertions"

/-- `trait Store`, with `dump` under `#[cfg(debug_assertions)]`. -/
def store : TraitTokens where
  attrs := []
  vis := "pub"
  ident := .new "Store"
  methods := [⟨[], .new "get", [.typed ⟨[], .ident "key", "u64"⟩], .type "u64"⟩,
    ⟨[debugOnly], .new "dump", [], .type "Dump"⟩]

section

attribute [local instance] Lowercase.ascii

theorem store_expands : ∃ g, service store = some (.ok g) := by
  have hnames : ∀ ipc ∈ (Service.parsed store).ipcs, ipc.camelCase.isSome := by decide
  obtain ⟨g, hg⟩ := Option.isSome_iff_exists.mp (Service.generator_isSome_iff.mpr hnames)
  exact ⟨g, service_ok_iff.mpr ⟨by decide, hg⟩⟩

/-- A build without debug assertions. -/
def release : Valuation where
  active att := decide (att.content ≠ debugOnly)
  unconditional att hatt := by
    rw [decide_eq_true_eq]
    intro hcontent
    exact hatt ⟨_, _, _, hcontent, rfl, .inl rfl⟩

/-- A build with them. -/
def debug : Valuation where
  active _ := true
  unconditional _ _ := rfl

theorem store_all_in : ∃ g, service store = some (.ok g) ∧ debug.AllOrNone g := by
  obtain ⟨g, hg⟩ := store_expands
  exact ⟨g, hg, (debug.allOrNone_iff hg).mpr fun _ _ _ _ => rfl⟩

/-- Without `dump` there is still its variant of the response, with the type `Dump`. -/
theorem dump_half_out : ∃ g, service store = some (.ok g) ∧ ¬ release.AllOrNone g := by
  obtain ⟨g, hg⟩ := store_expands
  refine ⟨g, hg, fun hall => ?_⟩
  have hgen := Service.generates (service_ok_iff.mp hg).2
  have hdump := (release.response_iff hgen).mp hall.response
    (IpcMethod.parsed ⟨[debugOnly], .new "dump", [], .type "Dump"⟩)
    (List.mem_map_of_mem (by simp [store]))
  revert hdump
  decide

end

end CkbScriptIpc.Macro
