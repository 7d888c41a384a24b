import Anybus.Core.Assoc
import Anybus.Rpc.Expansion

/-!
# Calls through client and depot

A call of a client function builds a request, hands it to the bus and takes the response
apart; the depot finds the arm of the request, calls the implementation and wraps what it
returns. If the names in the written code do not clash, a call that the bus carries is a call
of the method, whatever the arguments are called, and a call that the bus loses runs the
method at most once.
-/

namespace Anybus

/-- A value of the request enum. -/
structure RequestVal (ν : Type) where
  variant : Ident
  fields : List (Ident × ν)
  deriving DecidableEq, Repr

/-- A value of the response enum. -/
structure ResponseVal (ν : Type) where
  variant : Ident
  result : ν
  deriving DecidableEq, Repr

inductive Val (ν : Type) where
  | plain (v : ν)
  | request (r : RequestVal ν)
  | response (r : ResponseVal ν)
  deriving DecidableEq, Repr

/-- How the evaluation of an expression ends. -/
inductive Outcome (ε α : Type) where
  | value (a : α)
  /-- The function returns early with an error. -/
  | err (e : ε)
  | panic
  /-- The compiler does not accept the expression. -/
  | illFormed
  deriving DecidableEq, Repr

/-- The variables in scope. -/
abbrev Env (ν : Type) := Ident → Option (Val ν)

/-- An evaluation that has ended, with the state it leaves. -/
@[ext] structure Ended (ε α σ : Type) where
  outcome : Outcome ε α
  state : σ
  deriving DecidableEq

namespace Ended

variable {ε α β σ : Type}

/-- Go on with the value, if there is one. -/
def andThen (r : Ended ε α σ) (f : α → σ → Ended ε β σ) : Ended ε β σ :=
  match r.outcome with
  | .value a => f a r.state
  | .err e => ⟨.err e, r.state⟩
  | .panic => ⟨.panic, r.state⟩
  | .illFormed => ⟨.illFormed, r.state⟩

@[simp] theorem andThen_value (a : α) (s : σ) (f : α → σ → Ended ε β σ) :
    andThen ⟨.value a, s⟩ f = f a s := rfl

@[simp] theorem andThen_err (e : ε) (s : σ) (f : α → σ → Ended ε β σ) :
    andThen ⟨.err e, s⟩ f = ⟨.err e, s⟩ := rfl

end Ended

/-- The fields of `self` that the code uses: the depot has the implementation of the trait,
the client has the bus. -/
structure SelfFields (ν ε σ : Type) where
  inner : Option (Ident → List ν → σ → ν × σ)
  rpcHelper : Option (RequestVal ν → σ → Ended ε (ResponseVal ν) σ)

section Env

variable {ν : Type}

/-- Bring variables of different names into scope. -/
def Env.bind (env : Env ν) (l : List (Ident × ν)) : Env ν :=
  fun x => ((l.lookup x).map .plain).or (env x)

/-- The value of a variable that holds a plain one. -/
def Env.plain (env : Env ν) (x : Ident) : Option ν :=
  match env x with
  | some (.plain v) => some v
  | _ => none

/-- Variables of different names have the values they were given. -/
theorem Env.mapM_plain_bind (env : Env ν) {names : List Ident} {vs : List ν} (hnodup : names.Nodup)
    (hlen : names.length = vs.length) : names.mapM (env.bind (names.zip vs)).plain = some vs := by
  have hlookup := mapM_eq_some_iff.mp (mapM_lookup_zip hnodup hlen)
  rw [mapM_eq_some_iff]
  apply hlookup.imp
  intro x v hx
  have hbind : env.bind (names.zip vs) x = some (.plain v) := by
    rw [Env.bind, hx, Option.map_some, Option.some_or]
  rw [Env.plain, hbind]

end Env

section Eval

variable {ν ε σ : Type}

/-- What an expression of the written code computes. A request has to name a variant of the
enum, with its fields. -/
def Expr.eval (e : Expansion) (self : SelfFields ν ε σ) :
    Expr → Env ν → σ → Ended ε (Val ν) σ
  | .var x, env, s => ⟨((env x).map .value).getD .illFormed, s⟩
  | .request variant fields, env, s =>
    if (e.requestVariants.lookup variant).map (List.map Prod.fst) = some fields then
      match fields.mapM env.plain with
      | some vs => ⟨.value (.request ⟨variant, fields.zip vs⟩), s⟩
      | none => ⟨.illFormed, s⟩
    else ⟨.illFormed, s⟩
  | .response variant body, env, s =>
    (body.eval e self env s).andThen fun
      | .plain v, s =>
        if (e.responseVariants.lookup variant).isSome then ⟨.value (.response ⟨variant, v⟩), s⟩
        else ⟨.illFormed, s⟩
      | _, s => ⟨.illFormed, s⟩
  | .callInner method args, env, s =>
    match self.inner, args.mapM env.plain with
    | some inner, some vs =>
      let r := inner method vs s
      ⟨.value (.plain r.1), r.2⟩
    | _, _ => ⟨.illFormed, s⟩
  | .requestToUuid body, env, s =>
    (body.eval e self env s).andThen fun
      | .request r, s =>
        match self.rpcHelper with
        | some helper => (helper r s).andThen fun response s => ⟨.value (.response response), s⟩
        | none => ⟨.illFormed, s⟩
      | _, s => ⟨.illFormed, s⟩
  | .letIn x body rest, env, s =>
    (body.eval e self env s).andThen fun v s => rest.eval e self (Function.update env x (some v)) s
  | .matchResponse body variant x rest, env, s =>
    (body.eval e self env s).andThen fun
      | .response r, s =>
        if r.variant = variant then
          rest.eval e self (Function.update env x (some (.plain r.result))) s
        else ⟨.panic, s⟩
      | _, s => ⟨.illFormed, s⟩
  | .ok body, env, s => body.eval e self env s

/-- Answer a request. The first arm of its variant is taken, with the fields in scope. -/
def Expansion.onRequest (e : Expansion) (inner : Ident → List ν → σ → ν × σ) (env : Env ν)
    (request : Option (RequestVal ν)) (s : σ) : Ended ε (ResponseVal ν) σ :=
  match request with
  | none => ⟨.panic, s⟩
  | some r =>
    match e.depotMatchArms.find? fun arm => arm.variant = r.variant with
    | none => ⟨.illFormed, s⟩
    | some arm =>
      match arm.fields.mapM fun x => r.fields.lookup x with
      | none => ⟨.illFormed, s⟩
      | some vs =>
        (arm.body.eval e ⟨some inner, none⟩ (env.bind (arm.fields.zip vs)) s).andThen fun
          | .response response, s => ⟨.value response, s⟩
          | _, s => ⟨.illFormed, s⟩

/-- Call a function of the client. -/
def Expansion.call (e : Expansion) (helper : RequestVal ν → σ → Ended ε (ResponseVal ν) σ)
    (name : Ident) (args : List ν) (s : σ) : Ended ε ν σ :=
  match e.clientMethods.find? fun f => f.name = name with
  | none => ⟨.illFormed, s⟩
  | some f =>
    if f.params.length = args.length then
      (f.body.eval e ⟨none, some helper⟩ (Env.bind (fun _ => none) ((f.params.map Prod.fst).zip args))
        s).andThen fun
          | .plain v, s => ⟨.value v, s⟩
          | _, s => ⟨.illFormed, s⟩
    else ⟨.illFormed, s⟩

/-- What becomes of a call on the bus. -/
inductive Fate (ε : Type) where
  | carried
  /-- The request does not get to the depot. -/
  | requestLost (e : ε)
  /-- The depot has answered, but the client does not get the response. -/
  | replyLost (e : ε)
  deriving DecidableEq, Repr

/-- The bus between a client and its depot. -/
def Expansion.carry (e : Expansion) (inner : Ident → List ν → σ → ν × σ) (env : Env ν)
    (fate : Fate ε) (r : RequestVal ν) (s : σ) : Ended ε (ResponseVal ν) σ :=
  match fate with
  | .carried => e.onRequest inner env (some r) s
  | .requestLost error => ⟨.err error, s⟩
  | .replyLost error =>
    (e.onRequest inner env (some r) s).andThen fun _ s => ⟨.err error, s⟩

/-- A call of a method, and what becomes of it. -/
structure RpcCall (ν ε : Type) where
  method : Ident
  args : List ν
  fate : Fate ε

/-- Calls of the client in turn: what each returns, and the implementation afterwards. -/
def Expansion.session (e : Expansion) (inner : Ident → List ν → σ → ν × σ) (env : Env ν) :
    List (RpcCall ν ε) → σ → List (Outcome ε ν) × σ
  | [], s => ([], s)
  | c :: calls, s =>
    let r := e.call (e.carry inner env c.fate) c.method c.args s
    let rest := e.session inner env calls r.state
    (r.outcome :: rest.1, rest.2)

/-- The same calls made to the implementation itself. -/
def directSession (inner : Ident → List ν → σ → ν × σ) :
    List (RpcCall ν ε) → σ → List (Outcome ε ν) × σ
  | [], s => ([], s)
  | c :: calls, s =>
    let called := inner c.method c.args s
    let r : Ended ε ν σ := match c.fate with
      | .carried => ⟨.value called.1, called.2⟩
      | .requestLost error => ⟨.err error, s⟩
      | .replyLost error => ⟨.err error, called.2⟩
    let rest := directSession inner calls r.state
    (r.outcome :: rest.1, rest.2)

variable {t : ItemTrait} {attr : RpcAttr} {e : Expansion} {m : Method}

/-- The pieces of the written code for one method. -/
structure Expansion.Covers (e : Expansion) (m : Method) (variant : Ident) : Prop where
  client : e.clientMethods.find? (fun f => f.name = m.name) = some (clientMethod m variant)
  arm : e.depotMatchArms.find? (fun arm => arm.variant = variant) = some (depotMatchArm m variant)
  request : e.requestVariants.lookup variant = some m.args
  response : e.responseVariants.lookup variant = some m.ret

/-- The written code has a function, an arm and two variants for each method. -/
theorem covers_of_mem (h : anybusRpcImpl attr t = some e) (hdistinct : e.NamesDistinct)
    (hm : m ∈ t.methods) : ∃ variant, e.Covers m variant := by
  obtain ⟨ms, hms, rfl⟩ := Option.map_eq_some_iff.mp h
  obtain ⟨hmethods, -⟩ := ItemTrait.variants_eq_some_iff.mp hms
  rw [← hmethods] at hm
  obtain ⟨⟨m, variant⟩, hp, rfl⟩ := List.mem_map.mp hm
  have hvariants : ((ms.map fun p => depotMatchArm p.1 p.2).map Arm.variant).Nodup := by
    have hrequest := hdistinct.request
    rw [List.map_map] at hrequest ⊢
    exact hrequest
  refine ⟨variant, ?_, ?_, ?_, ?_⟩
  · exact find?_of_mem_of_nodup hdistinct.client.of_append_left (List.mem_map_of_mem hp)
  · exact find?_of_mem_of_nodup hvariants (List.mem_map_of_mem hp)
  · exact lookup_of_mem hdistinct.request (List.mem_map_of_mem hp)
  · exact lookup_of_mem hdistinct.response (List.mem_map_of_mem hp)

/-- A function of the client sends a request of its variant and takes a response of its
variant apart. -/
theorem Expansion.Covers.call_eq {variant : Ident} (h : e.Covers m variant) (hargs : m.argNames.Nodup)
    (helper : RequestVal ν → σ → Ended ε (ResponseVal ν) σ) {vs : List ν}
    (hlen : m.args.length = vs.length) (s : σ) :
    e.call helper m.name vs s = (helper ⟨variant, m.argNames.zip vs⟩ s).andThen fun r s =>
      if r.variant = variant then ⟨.value r.result, s⟩ else ⟨.panic, s⟩ := by
  have hnames : m.argNames.length = vs.length := by rw [Method.argNames, List.length_map, hlen]
  have hplain := Env.mapM_plain_bind (fun _ => none) hargs hnames
  have hdeclared : (e.requestVariants.lookup variant).map (List.map Prod.fst) = some m.argNames := by
    rw [h.request]
    rfl
  have hbuild : (Expr.request variant m.argNames).eval e ⟨none, some helper⟩
      (Env.bind (fun _ => none) (m.argNames.zip vs)) s =
        ⟨.value (.request ⟨variant, m.argNames.zip vs⟩), s⟩ := by
    rw [Expr.eval, if_pos hdeclared, hplain]
  rw [Expansion.call, h.client]
  simp only [clientMethod, hlen, if_true]
  -- Each variable is read right after it is bound, so that an argument of the same name is
  -- out of the way.
  rw [Expr.eval, ← Method.argNames, hbuild]
  simp only [Expr.eval, Ended.andThen_value, Function.update_self, Option.map_some, Option.getD_some]
  rcases helper ⟨variant, m.argNames.zip vs⟩ s with ⟨_ | _ | _ | _, s'⟩
  · simp only [Ended.andThen_value]
    split <;> rfl
  all_goals rfl

/-- The depot answers a request of a variant with what the method returns. -/
theorem Expansion.Covers.onRequest_eq {variant : Ident} (h : e.Covers m variant)
    (hargs : m.argNames.Nodup) (inner : Ident → List ν → σ → ν × σ) (env : Env ν) {vs : List ν}
    (hlen : m.args.length = vs.length) (s : σ) :
    e.onRequest (ε := ε) inner env (some ⟨variant, m.argNames.zip vs⟩) s =
      ⟨.value ⟨variant, (inner m.name vs s).1⟩, (inner m.name vs s).2⟩ := by
  have hnames : m.argNames.length = vs.length := by rw [Method.argNames, List.length_map, hlen]
  have hfields := mapM_lookup_zip hargs hnames
  have hplain := Env.mapM_plain_bind env hargs hnames
  simp only [Expansion.onRequest, h.arm, depotMatchArm, hfields, Expr.eval, hplain, h.response,
    Ended.andThen_value, Option.isSome_some, if_true]

/-- A call through client and depot is a call of the method. -/
theorem Expansion.Covers.call_carry {variant : Ident} (h : e.Covers m variant)
    (hargs : m.argNames.Nodup) (inner : Ident → List ν → σ → ν × σ) (env : Env ν) {vs : List ν}
    (hlen : m.args.length = vs.length) (fate : Fate ε) (s : σ) :
    e.call (e.carry inner env fate) m.name vs s = match fate with
      | .carried => ⟨.value (inner m.name vs s).1, (inner m.name vs s).2⟩
      | .requestLost error => ⟨.err error, s⟩
      | .replyLost error => ⟨.err error, (inner m.name vs s).2⟩ := by
  rw [h.call_eq hargs _ hlen]
  cases fate with
  | carried => simp only [Expansion.carry, h.onRequest_eq hargs inner env hlen, Ended.andThen_value,
      if_true]
  | requestLost error => rfl
  | replyLost error => simp only [Expansion.carry, h.onRequest_eq hargs inner env hlen,
      Ended.andThen_value, Ended.andThen_err]

/-- Calls through the client, whatever becomes of each on the bus, return what the methods
themselves return and leave the implementation as they do. -/
theorem session_eq_directSession (hlegal : t.Legal) (h : anybusRpcImpl attr t = some e)
    (hdistinct : e.NamesDistinct) (inner : Ident → List ν → σ → ν × σ) (env : Env ν)
    (calls : List (RpcCall ν ε))
    (hcalls : ∀ c ∈ calls, ∃ m ∈ t.methods, m.name = c.method ∧ m.args.length = c.args.length)
    (s : σ) : e.session inner env calls s = directSession inner calls s := by
  induction calls generalizing s with
  | nil => rfl
  | cons c calls ih =>
    obtain ⟨m, hm, hname, hlen⟩ := hcalls c List.mem_cons_self
    obtain ⟨variant, hcovers⟩ := covers_of_mem h hdistinct hm
    have hcall := hcovers.call_carry (hlegal.args m hm) inner env hlen c.fate s
    rw [hname] at hcall
    have hrest := ih fun c hc => hcalls c (List.mem_cons_of_mem _ hc)
    simp only [Expansion.session, directSession, hcall, hrest]

end Eval

/-- Numbers are added or multiplied, and the state counts how often. -/
def mathInner (method : Ident) (args : List Nat) (count : Nat) : Nat × Nat :=
  (if method = "add" then args.foldl Nat.add 0 else args.foldl Nat.mul 1, count + 1)

def mathCalls : List (RpcCall Nat String) :=
  [⟨"add", [2, 3], .carried⟩, ⟨"multiply", [4, 5], .replyLost "shutdown"⟩,
    ⟨"add", [1, 1], .requestLost "no route"⟩, ⟨"multiply", [4, 5], .carried⟩]

theorem math_session : ∃ e, anybusRpcImpl ⟨none⟩ mathTrait = some e ∧
    e.session mathInner (fun _ => none) mathCalls 0 =
      ([.value 5, .err "shutdown", .err "no route", .value 20], 3) := by
  refine ⟨_, rfl, ?_⟩
  rw [session_eq_directSession mathTrait_legal rfl ⟨by decide, by decide, by decide⟩ mathInner
    (fun _ => none) mathCalls (by decide) 0]
  decide

end Anybus
