import Gamely.Calls
import Mathlib.Data.List.Nodup
import Mathlib.Data.Nat.Notation
import Mathlib.Logic.Relation

/-!
# The service container

A provider keeps singletons, a scope keeps the scoped instances of one request,
and factories ask the resolver they are given. Objects are told apart by their
identity. What the container did is written down in a log it does not read.
-/

set_option autoImplicit false

namespace Gamely.Container
open Gamely.Calls

inductive ServiceLifetime where
  | singleton
  | scoped
  | transient
  deriving DecidableEq, Repr

/-- An object that was there before, or the one made as the n-th by a factory. -/
inductive Instance where
  | outside (n : ℕ)
  | made (n : ℕ)
  deriving DecidableEq, Repr

/-- `ServiceResolver`: the provider, or a scope of it. -/
inductive Resolver where
  | root
  | scope (i : ℕ)
  deriving DecidableEq, Repr

variable (S E : Type)

/-- What `get` raises; factories raise exceptions of their own. -/
inductive Failure where
  | notRegistered (service : S)
  | scopeRequired (service : S)
  | scopeClosed
  | raised (e : E)
  deriving DecidableEq, Repr

/-- A factory returns an object it makes or one that exists. -/
inductive Product where
  | fresh
  | existing (x : Instance)
  deriving DecidableEq, Repr

/-- A factory asks its resolver for one service after the other and may handle a refusal. -/
abbrev Factory := Program S (fun _ => Instance) (Failure S E) Product

/-- The factory may behave differently at each call, which are counted over the whole run. -/
structure ServiceDescriptor where
  lifetime : ServiceLifetime
  factory : ℕ → Factory S E

/-! ## Registration -/

/-- `ServiceCollection`: a service is registered once. -/
structure ServiceCollection where
  descriptors : List (S × ServiceDescriptor S E)
  nodup : (descriptors.map Prod.fst).Nodup

variable {S E}

def ServiceCollection.empty : ServiceCollection S E := ⟨[], List.nodup_nil⟩

variable [DecidableEq S]

/-- `_add`; the error is the `ValueError` of a service that is registered already. -/
def ServiceCollection.add (services : ServiceCollection S E) (service : S)
    (descriptor : ServiceDescriptor S E) : Except S (ServiceCollection S E) :=
  if h : service ∈ services.descriptors.map Prod.fst then .error service
  else .ok ⟨services.descriptors ++ [(service, descriptor)], by
    rw [List.map_append]
    apply services.nodup.append (List.nodup_singleton _)
    simpa using h⟩

def ServiceCollection.addSingleton (services : ServiceCollection S E) (service : S)
    (factory : ℕ → Factory S E) : Except S (ServiceCollection S E) :=
  services.add service ⟨.singleton, factory⟩

def ServiceCollection.addScoped (services : ServiceCollection S E) (service : S)
    (factory : ℕ → Factory S E) : Except S (ServiceCollection S E) :=
  services.add service ⟨.scoped, factory⟩

def ServiceCollection.addTransient (services : ServiceCollection S E) (service : S)
    (factory : ℕ → Factory S E) : Except S (ServiceCollection S E) :=
  services.add service ⟨.transient, factory⟩

def ServiceCollection.addInstance (services : ServiceCollection S E) (service : S)
    (x : Instance) : Except S (ServiceCollection S E) :=
  services.addSingleton service (fun _ => .done (.existing x))

def ServiceCollection.addAll (services : ServiceCollection S E) :
    List (S × ServiceDescriptor S E) → Except S (ServiceCollection S E)
  | [] => .ok services
  | (service, descriptor)::rest => match services.add service descriptor with
    | .ok services => services.addAll rest
    | .error service => .error service

/-! ## The state of a provider and its scopes -/

variable (S) in
/-- An object with the factory call that made it and what that call had obtained. -/
structure Made where
  service : S
  resolver : Resolver
  obtained : List Instance
  deriving DecidableEq, Repr

variable (S) in
abbrev Cache := List (S × Instance)

variable (S) in
structure Scope where
  instances : Cache S
  closed : Bool

variable (S E) in
/-- A factory call that returned, a `get` that ended, an object given to `_dispose`. -/
inductive Event where
  | built (service : S) (resolver : Resolver) (x : Instance)
  | got (resolver : Resolver) (service : S) (answer : Except (Failure S E) Instance)
  | disposed (scope : ℕ) (x : Instance)

variable (S E) in
/-- A scope is empty until its first `get`, so it does not matter when it was created. -/
structure World where
  calls : ℕ
  made : List (Made S)
  singletons : Cache S
  scopes : ℕ → Scope S
  log : List (Event S E)

def World.new : World S E := ⟨0, [], [], fun _ => ⟨[], false⟩, []⟩

def World.cache (w : World S E) : Resolver → Cache S
  | .root => w.singletons
  | .scope i => (w.scopes i).instances

def World.logged (w : World S E) (e : Event S E) : World S E := { w with log := w.log ++ [e] }

/-- `cache[service] = x` keeps the place of a key that is there. -/
def put (cache : Cache S) (service : S) (x : Instance) : Cache S :=
  if service ∈ cache.map Prod.fst then
    cache.map (fun entry => if entry.1 = service then (service, x) else entry)
  else cache ++ [(service, x)]

def World.setScope (w : World S E) (i : ℕ) (scope : Scope S) : World S E :=
  { w with scopes := Function.update w.scopes i scope }

def World.store (w : World S E) (service : S) (x : Instance) : Resolver → World S E
  | .root => { w with singletons := put w.singletons service x }
  | .scope i => w.setScope i ⟨put (w.scopes i).instances service x, (w.scopes i).closed⟩

/-! ## Resolution -/

abbrev Answer (S E : Type) := Option (Except (Failure S E) Instance × World S E)

/-- Runs a factory on a resolver and lists what it obtains. -/
def runFactory (ask : S → World S E → Answer S E) : Factory S E → List Instance → World S E →
    Option (Except (Failure S E) (Product × List Instance) × World S E)
  | .done product, obtained, w => some (.ok (product, obtained), w)
  | .raised e, _, w => some (.error e, w)
  | .call service next, obtained, w => match ask service w with
    | none => none
    | some (.ok x, w') => runFactory ask (next (.ok x)) (obtained ++ [x]) w'
    | some (.error e, w') => runFactory ask (next (.error e)) obtained w'

/-- An object of a factory call that is still to come cannot be handed on. -/
def World.existing (w : World S E) : Instance → Instance
  | .outside n => .outside n
  | .made n => if n < w.made.length then .made n else .outside n

def produce (service : S) (resolver : Resolver) (obtained : List Instance) (w : World S E) :
    Product → Instance × World S E
  | .fresh => (.made w.made.length, { w with made := w.made ++ [⟨service, resolver, obtained⟩] })
  | .existing x => (w.existing x, w)

/-- `descriptor.factory(resolver)`. -/
def callFactory (ask : S → World S E → Answer S E) (service : S)
    (descriptor : ServiceDescriptor S E) (resolver : Resolver) (w : World S E) : Answer S E :=
  match runFactory ask (descriptor.factory w.calls) [] { w with calls := w.calls+1 } with
  | none => none
  | some (.error e, w') => some (.error e, w')
  | some (.ok (product, obtained), w') =>
    let r := produce service resolver obtained w' product
    some (.ok r.1, r.2.logged (.built service resolver r.1))

/-- `_resolve`: the cache is that of the resolver. -/
def resolve (ask : S → World S E → Answer S E) (service : S) (descriptor : ServiceDescriptor S E)
    (resolver : Resolver) (w : World S E) : Answer S E :=
  if descriptor.lifetime = .transient then callFactory ask service descriptor resolver w
  else match (w.cache resolver).lookup service with
    | some x => some (.ok x, w)
    | none => match callFactory ask service descriptor resolver w with
      | some (.ok x, w') => some (.ok x, w'.store service x resolver)
      | some (.error e, w') => some (.error e, w')
      | none => none

variable (services : ServiceCollection S E)

def ServiceProvider.get (ask : Resolver → S → World S E → Answer S E) (service : S)
    (w : World S E) : Answer S E :=
  match services.descriptors.lookup service with
  | none => some (.error (.notRegistered service), w)
  | some descriptor =>
    if descriptor.lifetime = .scoped then some (.error (.scopeRequired service), w)
    else resolve (ask .root) service descriptor .root w

def ServiceScope.get (ask : Resolver → S → World S E → Answer S E) (i : ℕ) (service : S)
    (w : World S E) : Answer S E :=
  if (w.scopes i).closed then some (.error .scopeClosed, w)
  else match services.descriptors.lookup service with
    | none => some (.error (.notRegistered service), w)
    | some descriptor =>
      if descriptor.lifetime = .scoped then
        resolve (ask (.scope i)) service descriptor (.scope i) w
      else ServiceProvider.get services ask service w

/-- `get` of a resolver, with factories nested at most `depth` deep. -/
def get : ℕ → Resolver → S → World S E → Answer S E
  | 0, _, _, _ => none
  | depth+1, .root, service, w => (ServiceProvider.get services (get depth) service w).map
      (fun r => (r.1, r.2.logged (.got .root service r.1)))
  | depth+1, .scope i, service, w => (ServiceScope.get services (get depth) i service w).map
      (fun r => (r.1, r.2.logged (.got (.scope i) service r.1)))

/-! ## Disposal -/

variable (E) in
/-- What calling the attributes of an object gives, where they are callable. -/
structure Methods where
  aclose : Option (Except E Unit)
  close : Option (Except E Unit)

/-- `_dispose` calls the first of the two there is. -/
def dispose (methods : Methods E) : Except E Unit :=
  match methods.aclose, methods.close with
  | some result, _ => result
  | none, some result => result
  | none, none => .ok ()

variable (methods : Instance → Methods E)

/-- The loop of `close`. -/
def disposeAll (i : ℕ) : List Instance → World S E → Except E Unit × World S E
  | [], w => (.ok (), w)
  | x::xs, w => match dispose (methods x) with
    | .ok _ => disposeAll i xs (w.logged (.disposed i x))
    | .error e => (.error e, w.logged (.disposed i x))

def close (i : ℕ) (w : World S E) : Except E Unit × World S E :=
  if (w.scopes i).closed then (.ok (), w)
  else
    let cached := (w.scopes i).instances
    match disposeAll methods i (cached.map Prod.snd).reverse (w.setScope i ⟨cached, true⟩) with
    | (.ok _, w') => (.ok (), w'.setScope i ⟨[], true⟩)
    | (.error e, w') => (.error e, w')

/-! ## Sequences of operations -/

variable (S) in
inductive Op where
  | get (resolver : Resolver) (service : S)
  | close (i : ℕ)
  deriving DecidableEq, Repr

def step (depth : ℕ) : Op S → World S E → Option (World S E)
  | .get resolver service, w => (get services depth resolver service w).map Prod.snd
  | .close i, w => some (close methods i w).2

def run (depth : ℕ) : List (Op S) → World S E → Option (World S E)
  | [], w => some w
  | op::ops, w => match step services methods depth op w with
    | some w' => run depth ops w'
    | none => none

/-! ## Registrations -/

/-- Some run of the program may ask for the service. -/
def May : Factory S E → S → Prop
  | .call service next, t => service = t ∨ ∃ reply, May (next reply) t
  | _, _ => False

/-- The factory of a service may ask for another one that is registered. -/
def Asks (s t : S) : Prop :=
  t ∈ services.descriptors.map Prod.fst ∧ ∃ descriptor k,
    services.descriptors.lookup s = some descriptor ∧ May (descriptor.factory k) t

def Acyclic : Prop := ∀ s, ¬ Relation.TransGen (Asks services) s s

/-- The program returns in no run without having obtained the service. -/
def Insists (t : S) : Factory S E → Prop
  | .done _ => False
  | .raised _ => True
  | .call service next => (∀ e, Insists t (next (.error e))) ∧
      (service = t ∨ ∀ x, Insists t (next (.ok x)))

/-- A scoped service, or one whose factory cannot do without one. -/
inductive Barred : S → Prop
  | perScope {s : S} {descriptor : ServiceDescriptor S E}
      (hd : services.descriptors.lookup s = some descriptor)
      (hs : descriptor.lifetime = .scoped) : Barred s
  | captive {s : S} {descriptor : ServiceDescriptor S E}
      (hd : services.descriptors.lookup s = some descriptor) (t : ℕ → S)
      (ht : ∀ k, Barred (t k)) (hi : ∀ k, Insists (t k) (descriptor.factory k)) : Barred s

/-- An existing object that a factory returns is from outside or was obtained. -/
def Confined : Factory S E → List Instance → Prop
  | .done (.existing x), obtained => (∃ n, x = .outside n) ∨ x ∈ obtained
  | .call _ next, obtained => (∀ x, Confined (next (.ok x)) (obtained ++ [x])) ∧
      ∀ e, Confined (next (.error e)) obtained
  | _, _ => True

/-- Factories obtain services only through the resolver they are given. -/
def AllConfined : Prop := ∀ s descriptor k, services.descriptors.lookup s = some descriptor →
  Confined (descriptor.factory k) []

/-- The factory returns an object it makes, or raises. -/
def MakesFresh : Factory S E → Prop
  | .done product => product = .fresh
  | .call _ next => ∀ reply, MakesFresh (next reply)
  | .raised _ => True

def ScopedFresh : Prop := ∀ s descriptor k, services.descriptors.lookup s = some descriptor →
  descriptor.lifetime = .scoped → MakesFresh (descriptor.factory k)

/-! ## Factories of the usual forms -/

/-- `lambda resolver: Service(resolver.get(Dependency), ...)`. -/
def construct : List S → Factory S E
  | [] => .done .fresh
  | s::dependencies => .call s (fun reply => match reply with
    | .ok _ => construct dependencies
    | .error e => .raised e)

/-- `lambda resolver: resolver.get(Other)`. -/
def forward (s : S) : Factory S E :=
  .call s (fun reply => match reply with
    | .ok x => .done (.existing x)
    | .error e => .raised e)

variable {services}

/-- Requests that only go down end. -/
theorem acyclic_of_lt (height : S → ℕ) (h : ∀ s t, Asks services s t → height t < height s) :
    Acyclic services := by
  have below : ∀ s t, Relation.TransGen (Asks services) s t → height t < height s := by
    intro s t ht
    induction ht with
    | single ht => exact h _ _ ht
    | tail _ ht ih => exact Nat.lt_trans (h _ _ ht) ih
  exact fun s hs => Nat.lt_irrefl _ (below s s hs)

end Gamely.Container
