import Anybus.Core.Assoc
import Mathlib.Data.Option.Basic
import Mathlib.Logic.Function.Basic

/-!
# The macro for RPC traits

The macro takes a trait and writes, next to it, an enum of requests, an enum of responses, a
client with one function per method, and a depot that answers requests with an
implementation of the trait. The code it writes is given as expressions of a small language,
so that what the code computes can be compared with the method itself.
-/

namespace Anybus

abbrev Ident := String

/-- A type of the trait, taken over word for word. -/
inductive RustType where
  | unit
  | tokens (text : String)
  deriving DecidableEq, Repr

/-- The pattern of an argument. Only a plain name is used by the macro. -/
inductive ArgPat where
  | ident (name : Ident)
  | other
  deriving DecidableEq, Repr

inductive FnArg where
  | receiver
  | typed (pat : ArgPat) (ty : RustType)
  deriving DecidableEq, Repr

/-- The signature of a method. -/
structure Signature where
  ident : Ident
  inputs : List FnArg
  /-- The type after the arrow, if there is an arrow. -/
  output : Option RustType
  deriving DecidableEq, Repr

inductive TraitItem where
  | fn (sig : Signature)
  /-- A constant, a type or a macro call. -/
  | other
  deriving DecidableEq, Repr

structure ItemTrait where
  ident : Ident
  items : List TraitItem
  deriving DecidableEq, Repr

/-- The attribute of the macro: the endpoint of the service, if it has a fixed one. -/
structure RpcAttr where
  uuid : Option Nat
  deriving DecidableEq, Repr

/-- What the macro keeps of a method. -/
structure Method where
  name : Ident
  receiver : Bool
  args : List (Ident × RustType)
  ret : RustType
  deriving DecidableEq, Repr

def FnArg.named : FnArg → Option (Ident × RustType)
  | .typed (.ident name) ty => some (name, ty)
  | .typed .other _ => none
  | .receiver => none

def Signature.method (sig : Signature) : Method where
  name := sig.ident
  receiver := sig.inputs.contains .receiver
  args := sig.inputs.filterMap FnArg.named
  ret := sig.output.getD .unit

def TraitItem.method : TraitItem → Option Method
  | .fn sig => some sig.method
  | .other => none

def ItemTrait.methods (t : ItemTrait) : List Method := t.items.filterMap TraitItem.method

/-- The names of the arguments of a method. -/
def Method.argNames (m : Method) : List Ident := m.args.map Prod.fst

/-- The variant of a method: its name with the first letter in upper case. The rest of the
name is cut off after its first byte, which panics inside a longer letter, and the result has
to be an identifier, which the name of a raw one is not. -/
def namePascal (name : Ident) : Option Ident :=
  match name.toList with
  | [] => none
  | c :: rest =>
    if c.utf8Size = 1 ∧ '#' ∉ rest then some (String.ofList (c.toUpper :: rest)) else none

/-- An expression of the code that is written. -/
inductive Expr where
  | var (x : Ident)
  /-- A request, with a field for each of the named variables. -/
  | request (variant : Ident) (fields : List Ident)
  | response (variant : Ident) (e : Expr)
  /-- `self.inner.method(args).await` -/
  | callInner (method : Ident) (args : List Ident)
  /-- `self.rpc_helper.request_to_uuid(e, self.endpoint_uuid).await?` -/
  | requestToUuid (e : Expr)
  | letIn (x : Ident) (e body : Expr)
  /-- A response of one variant is taken apart, and any other panics. -/
  | matchResponse (e : Expr) (variant x : Ident) (body : Expr)
  | ok (e : Expr)
  deriving DecidableEq, Repr

/-- A function of the client. -/
structure ClientFn where
  name : Ident
  params : List (Ident × RustType)
  ret : RustType
  body : Expr
  deriving DecidableEq, Repr

/-- An arm of the depot's match over requests. -/
structure Arm where
  variant : Ident
  fields : List Ident
  body : Expr
  deriving DecidableEq, Repr

/-- What the macro writes next to the trait. -/
structure Expansion where
  requestIdent : Ident
  responseIdent : Ident
  clientIdent : Ident
  depotIdent : Ident
  requestVariants : List (Ident × List (Ident × RustType))
  responseVariants : List (Ident × RustType)
  /-- The endpoint in the implementation of `BusRiderWithUuid`. -/
  anybusUuid : Option Nat
  clientMethods : List ClientFn
  /-- The functions that make a client. -/
  constructors : List Ident
  depotMatchArms : List Arm
  deriving DecidableEq, Repr

/-- The function of the client for a method. -/
def clientMethod (m : Method) (variant : Ident) : ClientFn where
  name := m.name
  params := m.args
  ret := m.ret
  body :=
    .letIn "request" (.request variant m.argNames) <|
    .letIn "response" (.requestToUuid (.var "request")) <|
    .letIn "result" (.matchResponse (.var "response") variant "result" (.var "result")) <|
    .ok (.var "result")

/-- The arm of the depot for a method. -/
def depotMatchArm (m : Method) (variant : Ident) : Arm where
  variant := variant
  fields := m.argNames
  body := .response variant (.callInner m.name m.argNames)

/-- The methods with their variants. -/
def ItemTrait.variants (t : ItemTrait) : Option (List (Method × Ident)) :=
  t.methods.mapM fun m => (namePascal m.name).map fun variant => (m, variant)

/-- The macro; `none` if it panics. -/
def anybusRpcImpl (attr : RpcAttr) (t : ItemTrait) : Option Expansion :=
  t.variants.map fun methods =>
    { requestIdent := t.ident ++ "Request"
      responseIdent := t.ident ++ "Response"
      clientIdent := t.ident ++ "Client"
      depotIdent := t.ident ++ "Depot"
      requestVariants := methods.map fun p => (p.2, p.1.args)
      responseVariants := methods.map fun p => (p.2, p.1.ret)
      anybusUuid := attr.uuid
      clientMethods := methods.map fun p => clientMethod p.1 p.2
      constructors := "new_with_uuid" :: if attr.uuid.isSome then ["new"] else []
      depotMatchArms := methods.map fun p => depotMatchArm p.1 p.2 }

/-- The names that the compiler wants to be distinct: variants of an enum, and functions of
one type. -/
structure Expansion.NamesDistinct (e : Expansion) : Prop where
  request : (e.requestVariants.map Prod.fst).Nodup
  response : (e.responseVariants.map Prod.fst).Nodup
  client : (e.clientMethods.map ClientFn.name ++ e.constructors).Nodup

/-- What the language asks of the trait itself: different methods have different names, and
so have the arguments of one method. -/
structure ItemTrait.Legal (t : ItemTrait) : Prop where
  names : (t.methods.map Method.name).Nodup
  args : ∀ m ∈ t.methods, m.argNames.Nodup

/-- A name whose first letter is one byte long and that is not raw. -/
def PlainName (name : Ident) : Prop :=
  ∃ c rest, name.toList = c :: rest ∧ c.utf8Size = 1 ∧ '#' ∉ rest

/-- Two names that differ in the case of the first letter only. -/
def CaseTwins (a b : Ident) : Prop :=
  a ≠ b ∧ ∃ c d rest, a.toList = c :: rest ∧ b.toList = d :: rest ∧ c.toUpper = d.toUpper

theorem namePascal_eq_some_iff {name variant : Ident} : namePascal name = some variant ↔
    ∃ c rest, name.toList = c :: rest ∧ c.utf8Size = 1 ∧ '#' ∉ rest ∧
      variant = String.ofList (c.toUpper :: rest) := by
  unfold namePascal
  cases hname : name.toList with
  | nil => simp
  | cons c rest => simp [eq_comm, and_assoc]

/-- Different names have the same variant exactly if they are twins. -/
theorem namePascal_eq_iff_caseTwins {a b v w : Ident} (ha : namePascal a = some v)
    (hb : namePascal b = some w) (hne : a ≠ b) : v = w ↔ CaseTwins a b := by
  obtain ⟨c, rest, hc, -, -, rfl⟩ := namePascal_eq_some_iff.mp ha
  obtain ⟨d, rest', hd, -, -, rfl⟩ := namePascal_eq_some_iff.mp hb
  rw [String.ofList_inj, List.cons_eq_cons]
  constructor
  · rintro ⟨hupper, rfl⟩
    exact ⟨hne, c, d, rest, hc, hd, hupper⟩
  · rintro ⟨-, c', d', rest'', hc', hd', hupper⟩
    obtain ⟨rfl, rfl⟩ := List.cons_eq_cons.mp (hc.symm.trans hc')
    obtain ⟨rfl, rfl⟩ := List.cons_eq_cons.mp (hd.symm.trans hd')
    exact ⟨hupper, rfl⟩

/-- The methods of a trait with their variants. -/
theorem ItemTrait.variants_eq_some_iff {t : ItemTrait} {ms : List (Method × Ident)} :
    t.variants = some ms ↔
      ms.map Prod.fst = t.methods ∧ ∀ p ∈ ms, namePascal p.1.name = some p.2 := by
  rw [ItemTrait.variants, mapM_eq_some_iff]
  generalize t.methods = methods
  constructor
  · intro h
    induction h with
    | nil => simp
    | cons hp _ ih =>
      obtain ⟨variant, hvariant, rfl⟩ := Option.map_eq_some_iff.mp hp
      refine ⟨by rw [List.map_cons, ih.1], ?_⟩
      rintro p (_ | ⟨_, hp⟩)
      · exact hvariant
      · exact ih.2 p hp
  · rintro ⟨rfl, hms⟩
    rw [List.forall₂_map_left_iff, List.forall₂_same]
    intro p hp
    rw [hms p hp]
    rfl

/-- A plain name has a variant. -/
theorem variants_of_plainNames {t : ItemTrait} (h : ∀ m ∈ t.methods, PlainName m.name) :
    ∃ ms, t.variants = some ms := by
  refine ⟨t.methods.map fun m => (m, (namePascal m.name).getD ""), ?_⟩
  rw [ItemTrait.variants_eq_some_iff, List.map_map]
  refine ⟨List.map_id _, ?_⟩
  intro p hp
  obtain ⟨m, hm, rfl⟩ := List.mem_map.mp hp
  obtain ⟨c, rest, hname, hsize, hraw⟩ := h m hm
  rw [namePascal_eq_some_iff.mpr ⟨c, rest, hname, hsize, hraw, rfl⟩]
  rfl

section Names

variable {t : ItemTrait} {attr : RpcAttr} {ms : List (Method × Ident)}

/-- The variants are distinct exactly if no two methods are twins. -/
theorem nodup_variants_iff (hlegal : t.Legal) (hms : t.variants = some ms) :
    (ms.map Prod.snd).Nodup ↔ ∀ m ∈ t.methods, ∀ m' ∈ t.methods, ¬ CaseTwins m.name m'.name := by
  obtain ⟨hmethods, hpascal⟩ := ItemTrait.variants_eq_some_iff.mp hms
  have hnames : (ms.map fun p => p.1.name).Nodup := by
    have h := hlegal.names
    rw [← hmethods, List.map_map] at h
    exact h
  rw [List.nodup_map_iff_inj_on (hnames.of_map _), ← hmethods]
  constructor
  · intro hinj m hm m' hm' htwins
    obtain ⟨p, hp, rfl⟩ := List.mem_map.mp hm
    obtain ⟨q, hq, rfl⟩ := List.mem_map.mp hm'
    have hvariant := (namePascal_eq_iff_caseTwins (hpascal p hp) (hpascal q hq) htwins.1).mpr htwins
    exact htwins.1 (by rw [hinj p hp q hq hvariant])
  · intro htwins p hp q hq hvariant
    apply List.inj_on_of_nodup_map hnames hp hq
    by_contra hne
    exact htwins p.1 (List.mem_map_of_mem hp) q.1 (List.mem_map_of_mem hq)
      ((namePascal_eq_iff_caseTwins (hpascal p hp) (hpascal q hq) hne).mp hvariant)

/-- The functions of the client are distinct exactly if no method is called like one that
makes a client. -/
theorem nodup_client_iff (hlegal : t.Legal) {e : Expansion} (h : anybusRpcImpl attr t = some e) :
    (e.clientMethods.map ClientFn.name ++ e.constructors).Nodup ↔
      ∀ m ∈ t.methods, m.name ≠ "new_with_uuid" ∧ (attr.uuid.isSome → m.name ≠ "new") := by
  obtain ⟨ms, hms, rfl⟩ := Option.map_eq_some_iff.mp h
  obtain ⟨hmethods, -⟩ := ItemTrait.variants_eq_some_iff.mp hms
  have hnames : (ms.map fun p => clientMethod p.1 p.2).map ClientFn.name =
      t.methods.map Method.name := by
    rw [← hmethods, List.map_map, List.map_map]
    rfl
  rw [List.nodup_append', hnames]
  cases attr.uuid with
  | none => simp [hlegal.names]
  | some uuid => simp [hlegal.names, List.disjoint_left]

end Names

/-- A trait with two methods of two numbers. -/
def mathTrait : ItemTrait where
  ident := "MathTrait"
  items :=
    [ .fn ⟨"add", [.receiver, .typed (.ident "a") (.tokens "i32"), .typed (.ident "b") (.tokens "i32")],
        some (.tokens "i32")⟩,
      .fn ⟨"multiply",
        [.receiver, .typed (.ident "a") (.tokens "i32"), .typed (.ident "b") (.tokens "i32")],
        some (.tokens "i32")⟩ ]

theorem mathTrait_legal : mathTrait.Legal := ⟨by decide, by decide⟩

end Anybus
