import CkbScriptIpc.Channel
import CkbScriptIpc.Words
import Mathlib.Data.List.Nodup

/-!
# Generated services

What `#[ckb_script_ipc::service]` makes of a service trait: the request and the
response enum with one variant for each method, the `Serve` impl of the server
and the stubs of the client. The arguments of all methods are values of one type
`A`, and what they return is of one type `B`.

`Service.arm_variant`: the arm of the server that takes a request of a method is
the one of that method, because the variants are distinct.
-/

namespace CkbScriptIpc

open Interaction

/-- `str::to_lowercase`, which follows the tables of Unicode. -/
class Lowercase where
  toLowercase : String → String

/-- The lower case of identifiers in ASCII. -/
@[reducible] def Lowercase.ascii : Lowercase where
  toLowercase word := String.ofList (word.toList.map Char.toLower)

section

variable [Lowercase]

/-- `word[..1].to_uppercase() + &word[1..].to_lowercase()`. The slices panic on an empty
word and inside a first character of more than one byte. -/
def capitalize : List Char → Option String
  | [] => none
  | c :: cs =>
    if c.utf8Size = 1 then
      some (String.singleton c.toUpper ++ Lowercase.toLowercase (String.ofList cs))
    else none

def snakeToCamel (ident : String) : Option String :=
  ((ident.toList.splitOn '_').mapM capitalize).map String.join

/-- A method of a service, with the variant that the two enums have for it. -/
structure IpcMethod where
  ident : String
  variant : String
  named : snakeToCamel ident = some variant

/-- A service whose enums compile: no two methods have the same variant. -/
structure Service where
  methods : List IpcMethod
  distinct : (methods.map IpcMethod.variant).Nodup

namespace Service

variable (svc : Service)

abbrev Method := {m : IpcMethod // m ∈ svc.methods}

/-- The names of the variants of the two enums. -/
abbrev Variant := {v : String // v ∈ svc.methods.map IpcMethod.variant}

/-- The generated request enum. -/
structure Request (A : Type) where
  variant : svc.Variant
  args : A
  deriving DecidableEq

/-- The generated response enum. -/
structure Response (B : Type) where
  variant : svc.Variant
  ret : B
  deriving DecidableEq

/-- An invocation of a method, by a stub of the client or by the server. -/
structure Call (A : Type) where
  method : svc.Method
  args : A

variable {svc} {A B X Y R V : Type}

def variant (m : svc.Method) : svc.Variant := ⟨m.1.variant, List.mem_map_of_mem m.2⟩

def Call.request (c : svc.Call A) : svc.Request A := ⟨variant c.method, c.args⟩

def Call.response (c : svc.Call A) (ret : B) : svc.Response B := ⟨variant c.method, ret⟩

theorem find_isSome (v : svc.Variant) :
    (svc.methods.find? fun m => m.variant = v.1).isSome := by
  obtain ⟨m, hm, hv⟩ := List.mem_map.mp v.2
  simp only [List.find?_isSome, decide_eq_true_eq]
  exact ⟨m, hm, hv⟩

/-- The method of the first arm in `serve` that matches. -/
def arm (v : svc.Variant) : svc.Method :=
  ⟨(svc.methods.find? fun m => m.variant = v.1).get (find_isSome v),
    List.mem_of_find?_eq_some (Option.some_get _).symm⟩

theorem arm_variant (m : svc.Method) : svc.arm (variant m) = m := by
  have hfind := Words.find?_map_of_nodup svc.distinct m.2
  exact Subtype.ext (Option.get_of_eq_some _ hfind)

/-- `Serve::serve` of the generated server, which calls the method of the service. -/
def serve (req : svc.Request A) :
    Prog (IoRes (svc.Call A) B) (Except IpcError (svc.Response B)) :=
  let c : svc.Call A := ⟨svc.arm req.variant, req.args⟩
  .call (.ext c) fun ret => .ret (.ok (c.response ret))

theorem serve_request (c : svc.Call A) :
    serve (B := B) c.request = .call (.ext c) fun ret => .ret (.ok (c.response ret)) := by
  have harm : (⟨svc.arm c.request.variant, c.request.args⟩ : svc.Call A) = c := by
    simp only [Call.request, arm_variant]
  rw [serve, harm]

variable [Allocator]

/-- The stub of a method in the generated client, whose only field is the channel. -/
def stub [Read R] [Write V] [Serde (svc.Request A)] [Serde (svc.Response B)] (c : svc.Call A)
    (channel : Channel R V) : Prog (IoRes X Y) (B × Channel R V) :=
  (Channel.call c.request channel).bind fun
    | (.ok (resp : svc.Response B), channel) =>
      if resp.variant = variant c.method then .ret (resp.ret, channel)
      else .panic -- "IPC error: wrong method id"
    | (.error _, _) => .panic -- "IPC error"

/-- One stub call after another, and what they return. -/
def callAll [Read R] [Write V] [Serde (svc.Request A)] [Serde (svc.Response B)] :
    List (svc.Call A) → Channel R V → Prog (IoRes X Y) (List B × Channel R V)
  | [], channel => .ret ([], channel)
  | c :: cs, channel =>
    (stub c channel).bind fun (ret, channel) =>
      (callAll cs channel).map fun (rets, channel) => (ret :: rets, channel)

/-- The server's side: `execute` drives the generated `Serve` impl. -/
def runServer [Read R] [Write V] [Serde (svc.Request A)] [Serde (svc.Response B)]
    (channel : Channel R V) :
    Prog (IoRes (svc.Call A) B) (Except IpcError Unit × Channel R V) :=
  Channel.execute (serve : svc.Request A → Prog (IoRes (svc.Call A) B) _) channel

end Service

end

end CkbScriptIpc
