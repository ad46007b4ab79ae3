import CkbScriptIpc.Macro.Generate
import Mathlib

/-!
# Names of variants

The CamelCase names that the macro makes of the names of methods: for which there is
one, which of them are equal, and what follows for the requests of the client.

`snakeToCamel_isSome_iff`: the slices of the conversion are in bounds exactly when a
one-byte character stands at the start and behind each underscore. `variant_eq_iff`: two
variants are equal exactly when the names are once their letters are small and the
underscores are gone that stand in front of no letter. `namesApart_iff`: what this and the
checks of the parser leave open.

Two results connect this with the rest of the development. `service_returns_iff`: the macro
returns for an accepted trait exactly when the conversion does for each name.
`exists_compiled`: a trait with separated names gives a `CkbScriptIpc.Service`, the one that the
generated server and client run.
-/

namespace CkbScriptIpc.Macro

open Words

/-! ## Letters -/

theorem toUpper_of_not_alpha {c : Char} (h : c.isAlpha = false) : c.toUpper = c :=
  Char.toUpper_eq_of_not_isLower fun hlower => by simp [Char.isAlpha, hlower] at h

theorem toUpper_ne_underscore {c : Char} (hc : c ≠ '_') : c.toUpper ≠ '_' := by
  intro h
  have halpha : c.isAlpha = false := by rw [← Char.isAlpha_toUpper_eq_isAlpha, h]; rfl
  exact hc (by rwa [toUpper_of_not_alpha halpha] at h)

theorem toLower_ne_underscore {c : Char} (hc : c ≠ '_') : c.toLower ≠ '_' := by
  intro h
  have halpha : c.isAlpha = false := by rw [← Char.isAlpha_toLower_eq_isAlpha, h]; rfl
  rw [Char.toLower_eq_of_not_isUpper fun hupper => by simp [Char.isAlpha, hupper] at halpha] at h
  exact hc h

/-- A character of a variant, with an underscore for a capital. -/
def mark (c : Char) : List Char := if c.isUpper then ['_', c.toLower] else [c]

theorem mark_of_not_upper {c : Char} (h : c.isUpper = false) : mark c = [c] := by
  simp [mark, h]

theorem mark_toUpper {c : Char} (hc : c.isAlpha = true) : mark c.toUpper = ['_', c.toLower] := by
  simp [mark, hc]

theorem mark_ne_nil (c : Char) : mark c ≠ [] := by
  rw [mark]
  split <;> exact List.cons_ne_nil _ _

theorem flatMap_mark {l : List Char} (h : ∀ c ∈ l, c.isUpper = false) : l.flatMap mark = l := by
  rw [List.flatMap_congr fun c hc => mark_of_not_upper (h c hc)]
  exact List.flatMap_singleton' l

/-- Without underscores of its own, a variant can be read back from its marks. -/
theorem readable_mark : Readable (· ≠ '_') mark := by
  intro a b ha hb l l' h
  by_cases hua : a.isUpper = true <;> by_cases hub : b.isUpper = true
  · simp only [mark, hua, hub, if_true, List.cons_append, List.cons.injEq] at h
    rw [← Char.toUpper_eq_of_not_isLower (Char.not_isLower_of_isUpper hua),
      ← Char.toUpper_eq_of_not_isLower (Char.not_isLower_of_isUpper hub),
      ← Char.toUpper_toLower_eq_toUpper a, h.2.1, Char.toUpper_toLower_eq_toUpper]
  · simp only [mark, hua, hub] at h
    exact absurd (List.cons.inj h).1.symm hb
  · simp only [mark, hua, hub] at h
    exact absurd (List.cons.inj h).1 ha
  · simp only [mark, hua, hub] at h
    exact (List.cons.inj h).1

section

variable [Lowercase]

/-! ## The slices -/

/-- The slices `word[..1]` and `word[1..]` of the word that stands here are in bounds. -/
def StartsWord (cs : List Char) : Prop :=
  ∃ c rest, cs = c :: rest ∧ c ≠ '_' ∧ c.utf8Size = 1

/-- A word starts at the start, and behind each underscore. -/
def Sliceable (cs : List Char) : Prop :=
  StartsWord cs ∧ ∀ rest, '_' :: rest <:+ cs → StartsWord rest

theorem capitalize_word_isSome_iff (cs : List Char) :
    (capitalize (word '_' cs)).isSome ↔ StartsWord cs := by
  cases cs with
  | nil => simp [word, capitalize, StartsWord]
  | cons c rest =>
    rw [word, List.takeWhile_cons]
    by_cases hc : c = '_'
    · simp [hc, capitalize, StartsWord]
    · by_cases hsize : c.utf8Size = 1 <;> simp [hc, hsize, capitalize, StartsWord]

theorem snakeToCamel_isSome_iff (name : String) :
    (snakeToCamel name).isSome ↔ Sliceable name.toList := by
  rw [snakeToCamel, Option.isSome_map, mapM_isSome_iff, forall_mem_splitOn_iff]
  simp only [capitalize_word_isSome_iff]
  rfl

/-- The conversion of the name of a method, which is written without `r#`. -/
theorem snakeToCamel_returns_iff (ident : Ident) :
    (snakeToCamel ident.unraw.toString).isSome ↔ Sliceable ident.sym.toList :=
  snakeToCamel_isSome_iff ident.sym

/-- The macro returns for an accepted trait when all its names can be converted. -/
theorem service_returns_iff {input : TraitTokens} (h : Service.Accepted input) :
    (service input).isSome ↔ ∀ method ∈ input.methods, Sliceable method.ident.sym.toList := by
  rw [service_isSome_iff]
  simp only [h, true_imp_iff, snakeToCamel_isSome_iff, Ident.toString_unraw]

end

section

attribute [local instance] Lowercase.ascii

/-- Names that the compiler allows, with a word that is empty or starts with two bytes. -/
theorem words_out_of_bounds :
    snakeToCamel (Ident.new "_dump").unraw.toString = none ∧
      snakeToCamel (Ident.new "get__one").unraw.toString = none ∧
      snakeToCamel (Ident.mk true "type_").unraw.toString = none ∧
      snakeToCamel (Ident.new "get_été").unraw.toString = none := by decide

end

section

variable [Lowercase]

/-! ## Equal variants -/

/-- What `str::to_lowercase` leaves behind: no capital of ASCII, and no new underscore. -/
structure Lowers : Prop where
  no_capital : ∀ s, ∀ c ∈ (Lowercase.toLowercase s).toList, c.isUpper = false
  no_underscore : ∀ s, '_' ∉ s.toList → '_' ∉ (Lowercase.toLowercase s).toList

def lowercase (cs : List Char) : List Char := (Lowercase.toLowercase (String.ofList cs)).toList

/-- A word in small letters, behind an underscore when it starts with a letter. -/
def foldWord : List Char → List Char
  | [] => []
  | c :: cs => (if c.isAlpha then ['_', c.toLower] else [c]) ++ lowercase cs

/-- A name in small letters, without the underscores that stand in front of no letter. -/
def fold (name : String) : List Char := (name.toList.splitOn '_').flatMap foldWord

def camelWord : List Char → List Char
  | [] => []
  | c :: cs => c.toUpper :: lowercase cs

theorem capitalize_toList {w : List Char} {v : String} (h : capitalize w = some v) :
    v.toList = camelWord w := by
  cases w with
  | nil => cases h
  | cons c cs =>
    rw [capitalize] at h
    split at h
    · obtain rfl := Option.some.inj h
      simp [camelWord, lowercase]
    · cases h

theorem snakeToCamel_toList {name variant : String} (h : snakeToCamel name = some variant) :
    variant.toList = (name.toList.splitOn '_').flatMap camelWord := by
  obtain ⟨vs, hvs, rfl⟩ := Option.map_eq_some_iff.mp h
  rw [mapM_eq_some_iff] at hvs
  rw [String.toList_join]
  clear h
  generalize name.toList.splitOn '_' = ws at hvs
  induction ws generalizing vs with
  | nil =>
    obtain rfl : vs = [] := by simpa using hvs.symm
    rfl
  | cons w ws ih =>
    cases vs with
    | nil => simp at hvs
    | cons v vs =>
      obtain ⟨hv, hvs⟩ := List.cons.inj hvs
      rw [List.flatMap_cons, List.flatMap_cons, capitalize_toList hv, ih vs hvs]

theorem foldWord_eq (hlow : Lowers) (w : List Char) :
    foldWord w = (camelWord w).flatMap mark := by
  cases w with
  | nil => rfl
  | cons c cs =>
    have htail : (lowercase cs).flatMap mark = lowercase cs :=
      flatMap_mark (hlow.no_capital (String.ofList cs))
    rw [foldWord, camelWord, List.flatMap_cons, htail]
    by_cases hc : c.isAlpha = true
    · rw [if_pos hc, mark_toUpper hc]
    · rw [if_neg hc, toUpper_of_not_alpha (by simpa using hc), mark_of_not_upper]
      simp only [Char.isAlpha, Bool.or_eq_true, not_or] at hc
      simpa using hc.1

theorem fold_eq (hlow : Lowers) {name variant : String} (h : snakeToCamel name = some variant) :
    fold name = variant.toList.flatMap mark := by
  rw [fold, snakeToCamel_toList h, List.flatMap_assoc]
  exact List.flatMap_congr fun w _ => foldWord_eq hlow w

theorem variant_no_underscore (hlow : Lowers) {name variant : String}
    (h : snakeToCamel name = some variant) : ∀ c ∈ variant.toList, c ≠ '_' := by
  rw [snakeToCamel_toList h]
  intro c hc hunderscore
  obtain ⟨w, hw, hcw⟩ := List.mem_flatMap.mp hc
  have hword : '_' ∉ w := by
    rcases mem_splitOn_iff.mp hw with rfl | ⟨rest, -, rfl⟩ <;> exact not_mem_word _
  cases w with
  | nil => cases hcw
  | cons d ds =>
    rw [List.mem_cons, not_or] at hword
    rcases List.mem_cons.mp hcw with rfl | hcw
    · exact toUpper_ne_underscore (Ne.symm hword.1) hunderscore
    · subst hunderscore
      exact hlow.no_underscore _ (by simpa using hword.2) hcw

theorem variant_eq_iff (hlow : Lowers) {a b va vb : String} (ha : snakeToCamel a = some va)
    (hb : snakeToCamel b = some vb) : va = vb ↔ fold a = fold b := by
  constructor
  · rintro rfl
    rw [fold_eq hlow ha, fold_eq hlow hb]
  · intro h
    rw [fold_eq hlow ha, fold_eq hlow hb] at h
    exact String.toList_inj.mp (flatMap_inj readable_mark mark_ne_nil
      (variant_no_underscore hlow ha) (variant_no_underscore hlow hb) h)

end

/-! ## Names in the expansion -/

/-- Two names that the compiler takes for one. -/
def Ident.Same (a b : Ident) : Prop := a.unraw = b.unraw

/-- No two names of the expansion meet: the variants are distinct, the request of each stub
is taken by the arm of its method, and neither the trait nor the client has a method with
the name of the function that the macro adds there. -/
structure NamesApart (g : ServiceGenerator) : Prop where
  variants : g.camelCaseIdents.Nodup
  dispatched : ∀ stub ∈ g.implClientIpcMethods,
    (g.dispatch stub.request).map Arm.method = some stub.ident
  server : ∀ f ∈ g.traitService.ipcFns, ¬ f.ident.Same g.traitService.server.ident
  new : ∀ stub ∈ g.implClientIpcMethods, ¬ stub.ident.Same g.implClientNew.ident

theorem Ident.same_new_iff {ident : Ident} {name : String} :
    ident.Same (.new name) ↔ ident.sym = name := by
  simp [Same, unraw, new]

/-- A name is `new` to the compiler when it is written so, with or without `r#`. -/
theorem Ident.sym_eq_iff {ident : Ident} {name : String} :
    ident.sym = name ↔ ident = .new name ∨ ident = ⟨true, name⟩ := by
  obtain ⟨raw, sym⟩ := ident
  cases raw <;> simp [new]

/-- The parser has refused `new` itself. -/
theorem new_iff {input : TraitTokens} (haccepted : Service.Accepted input) :
    (∀ method ∈ input.methods, method.ident.sym ≠ "new") ↔
      ∀ method ∈ input.methods, method.ident ≠ ⟨true, "new"⟩ := by
  refine forall₂_congr fun method hmethod => not_congr ?_
  rw [Ident.sym_eq_iff]
  exact or_iff_right (haccepted method hmethod).2.1

section

variable [Lowercase]

/-- Names that stay distinct in small letters and without the underscores in front of no
letter, and none of which is `server` or the raw `new`. -/
structure Separated (input : TraitTokens) : Prop where
  folds : (input.methods.map fun method => fold method.ident.sym).Nodup
  server : ∀ method ∈ input.methods, method.ident.sym ≠ "server"
  rawNew : ∀ method ∈ input.methods, method.ident ≠ ⟨true, "new"⟩

variable {input : TraitTokens} {svc : Service} {g : ServiceGenerator}

theorem variantIdent_eq {ipc : IpcMethod} {variant : String}
    (h : snakeToCamel ipc.ident.sym = some variant) : ipc.variantIdent = .new variant := by
  have hcamel : ipc.camelCase = some variant := h
  rw [IpcMethod.variantIdent, hcamel, Option.getD_some]

theorem named {ipc : IpcMethod} (h : ipc.camelCase.isSome) :
    snakeToCamel ipc.ident.sym = some ipc.variantIdent.sym := by
  obtain ⟨variant, hvariant⟩ := Option.isSome_iff_exists.mp h
  rw [variantIdent_eq hvariant]
  exact hvariant

theorem variants_nodup_iff (hlow : Lowers)
    (hnames : ∀ ipc ∈ svc.ipcs, ipc.camelCase.isSome) :
    (svc.ipcs.map IpcMethod.variantIdent).Nodup ↔
      (svc.ipcs.map fun ipc => fold ipc.ident.sym).Nodup := by
  refine nodup_map_congr fun a ha b hb => ?_
  obtain ⟨va, hva⟩ := Option.isSome_iff_exists.mp (hnames a ha)
  obtain ⟨vb, hvb⟩ := Option.isSome_iff_exists.mp (hnames b hb)
  have hiff : va = vb ↔ fold a.ident.sym = fold b.ident.sym := variant_eq_iff hlow hva hvb
  rw [variantIdent_eq hva, variantIdent_eq hvb, ← hiff]
  simp [Ident.new]

/-- With distinct variants, the first arm that matches is that of the method. -/
theorem dispatch_stub (hgen : svc.Generates g) (hvariants : g.camelCaseIdents.Nodup)
    {ipc : IpcMethod} (hipc : ipc ∈ svc.ipcs) :
    g.dispatch ipc.variantIdent = some ipc.arm := by
  rw [hgen.camelCaseIdents] at hvariants
  have hfind := find?_map_of_nodup hvariants hipc
  rw [ServiceGenerator.dispatch, hgen.arms, List.find?_map]
  exact congrArg (Option.map IpcMethod.arm) hfind

theorem dispatched (hgen : svc.Generates g) (hvariants : g.camelCaseIdents.Nodup) :
    ∀ stub ∈ g.implClientIpcMethods,
      (g.dispatch stub.request).map Arm.method = some stub.ident := by
  rw [hgen.stubs, List.forall_mem_map]
  intro ipc hipc
  exact congrArg (Option.map Arm.method) (dispatch_stub hgen hvariants hipc)

theorem apart_server_iff (hgen : svc.Generates g) :
    (∀ f ∈ g.traitService.ipcFns, ¬ f.ident.Same g.traitService.server.ident) ↔
      ∀ ipc ∈ svc.ipcs, ipc.ident.sym ≠ "server" := by
  rw [hgen.ipcFns, List.forall_mem_map]
  exact forall₂_congr fun ipc _ => not_congr Ident.same_new_iff

theorem apart_new_iff (hgen : svc.Generates g) :
    (∀ stub ∈ g.implClientIpcMethods, ¬ stub.ident.Same g.implClientNew.ident) ↔
      ∀ ipc ∈ svc.ipcs, ipc.ident.sym ≠ "new" := by
  rw [hgen.stubs, List.forall_mem_map]
  exact forall₂_congr fun ipc _ => not_congr Ident.same_new_iff

theorem namesApart_iff (hlow : Lowers) (h : service input = some (.ok g)) :
    NamesApart g ↔ Separated input := by
  obtain ⟨haccepted, hg⟩ := service_ok_iff.mp h
  have hgen := Service.generates hg
  have hfolds : g.camelCaseIdents.Nodup ↔
      (input.methods.map fun method => fold method.ident.sym).Nodup := by
    have hnames := Service.generator_isSome_iff.mp (Option.isSome_of_eq_some hg)
    rw [hgen.camelCaseIdents, variants_nodup_iff hlow hnames, Service.parsed, List.map_map]
    rfl
  have hserver := apart_server_iff hgen
  have hnew := apart_new_iff hgen
  rw [Service.parsed, List.forall_mem_map] at hserver hnew
  constructor
  · intro hapart
    exact ⟨hfolds.mp hapart.variants, hserver.mp hapart.server,
      (new_iff haccepted).mp (hnew.mp hapart.new)⟩
  · intro hsep
    have hvariants := hfolds.mpr hsep.folds
    exact ⟨hvariants, dispatched hgen hvariants, hserver.mpr hsep.server,
      hnew.mpr ((new_iff haccepted).mpr hsep.rawNew)⟩

/-! ## The service at run time -/

/-- A method with its variant, as the two enums have it. -/
def IpcMethod.compiled (ipc : IpcMethod) (h : ipc.camelCase.isSome) : CkbScriptIpc.IpcMethod :=
  ⟨ipc.ident.sym, ipc.variantIdent.sym, named h⟩

/-- A service with distinct variants, as its server and its client run it. -/
def Service.compiled (svc : Service) (hnames : ∀ ipc ∈ svc.ipcs, ipc.camelCase.isSome)
    (hvariants : (svc.ipcs.map IpcMethod.variantIdent).Nodup) : CkbScriptIpc.Service where
  methods := svc.ipcs.pmap IpcMethod.compiled hnames
  distinct := by
    have hsyms : (svc.ipcs.map fun ipc => ipc.variantIdent.sym).Nodup ↔
        (svc.ipcs.map IpcMethod.variantIdent).Nodup :=
      nodup_map_congr fun a _ b _ => by simp [IpcMethod.variantIdent, Ident.new]
    rw [List.map_pmap]
    simpa [IpcMethod.compiled] using hsyms.mpr hvariants

/-- Separated names make such a service, with the methods of the trait. -/
theorem exists_compiled (hlow : Lowers) (h : service input = some (.ok g))
    (hsep : Separated input) :
    ∃ hnames hvariants, ((Service.parsed input).compiled hnames hvariants).methods.map
      CkbScriptIpc.IpcMethod.ident = input.methods.map fun method => method.ident.sym := by
  obtain ⟨-, hg⟩ := service_ok_iff.mp h
  have hnames := Service.generator_isSome_iff.mp (Option.isSome_of_eq_some hg)
  have hvariants := (variants_nodup_iff hlow hnames).mpr
    (by simpa [Service.parsed, IpcMethod.parsed, Function.comp_def] using hsep.folds)
  refine ⟨hnames, hvariants, ?_⟩
  simp [Service.compiled, IpcMethod.compiled, Service.parsed, IpcMethod.parsed, List.map_pmap,
    Function.comp_def]

end

/-! ## Lower case in ASCII -/

section

attribute [local instance] Lowercase.ascii

theorem ascii_lowers : Lowers where
  no_capital s := by
    simp only [Lowercase.toLowercase, String.toList_ofList, List.forall_mem_map]
    exact fun c _ => Char.isUpper_toLower_eq_false c
  no_underscore s hs := by
    simp only [Lowercase.toLowercase, String.toList_ofList, List.mem_map, not_exists, not_and]
    exact fun c hc => toLower_ne_underscore fun h => hs (h ▸ hc)

/-- A trait with methods of these names, without arguments. -/
def traitOf (names : List Ident) : TraitTokens where
  attrs := []
  vis := "pub"
  ident := .new "Store"
  methods := names.map fun name => ⟨[], name, [], .default⟩

theorem traitOf_expands (names : List Ident) (haccepted : Service.Accepted (traitOf names))
    (hnames : ∀ name ∈ names, (snakeToCamel name.sym).isSome) :
    ∃ g, service (traitOf names) = some (.ok g) := by
  have hcamel : ∀ ipc ∈ (Service.parsed (traitOf names)).ipcs, ipc.camelCase.isSome := by
    simpa [Service.parsed, traitOf, IpcMethod.camelCase, IpcMethod.parsed] using hnames
  obtain ⟨g, hg⟩ := Option.isSome_iff_exists.mp (Service.generator_isSome_iff.mpr hcamel)
  exact ⟨g, service_ok_iff.mpr ⟨haccepted, hg⟩⟩

theorem plain_names_apart :
    ∃ g, service (traitOf [.new "get_value", .new "put", .new "serve_all"]) = some (.ok g) ∧
      NamesApart g := by
  obtain ⟨g, hg⟩ := traitOf_expands [.new "get_value", .new "put", .new "serve_all"]
    (by decide) (by decide)
  exact ⟨g, hg, (namesApart_iff ascii_lowers hg).mpr ⟨by decide, by decide, by decide⟩⟩

/-- Names that differ, of which two have one variant and one is that of a generated method. -/
def clashing : List Ident := [.new "get_1", .new "get1", .new "server"]

theorem clashing_names_meet :
    (clashing.map Ident.sym).Nodup ∧ ∃ g, service (traitOf clashing) = some (.ok g) ∧
      ¬ NamesApart g ∧ ¬ g.camelCaseIdents.Nodup ∧
        ∃ f ∈ g.traitService.ipcFns, f.ident.Same g.traitService.server.ident := by
  refine ⟨by decide, ?_⟩
  obtain ⟨g, hg⟩ := traitOf_expands clashing (by decide) (by decide)
  have hgen := Service.generates (service_ok_iff.mp hg).2
  have hvariants : ¬ g.camelCaseIdents.Nodup := by
    rw [hgen.camelCaseIdents]
    decide
  refine ⟨g, hg, fun hapart => hvariants hapart.variants, hvariants, ?_⟩
  rw [hgen.ipcFns]
  exact ⟨_, List.mem_map_of_mem (List.mem_of_mem_getLast? rfl), rfl⟩

end

end CkbScriptIpc.Macro
