/-
  ValueRpc.Resilience.Policies — the interceptors of a client and what their calls share
  (`valuerpc/interceptor.go`: `ChainClientInterceptors`; `resilience/policies.go`: `Timeout`,
  `Fallback`, `Bulkhead`, `RateLimit`; `resilience/retry.go`: `Retry`;
  `resilience/breaker.go`: `CircuitBreaker`).

  An interceptor does something, calls `next`, which is the rest of the chain, and does
  something when that returns. So a call is a list of the interceptors it is in, the innermost
  first, each with what it goes on with (`Frame`), and what it does now: it calls `next`, it
  sleeps between two attempts, or it returns. `enter` is an interceptor up to its `next`, and
  `leave` what follows it; a `defer` belongs there. With no interceptor left, `next` is the
  network's, and any outcome may come from there.

  Any number of calls run at once, through chains that may differ and share their bulkheads
  and breakers. An interceptor that is installed twice, or in two clients, has one number, and
  contexts are numbered as they are made. Which case of a `select` is taken where two are
  ready, what a token bucket says and when a timer fires is left open; the delays of a `Retry`
  are those of `Resilience.Retry`.
-/

import ValueRpc.Resilience.Cancelled
import ValueRpc.Resilience.Retry

namespace ValueRpc.Resilience.Chain

open Function ValueRpc.Core ValueRpc.Lib
open ValueRpc.Resilience.Retry (RetryConfig)

/-- What a call returns; a nil result is `none`. -/
structure Outcome (V : Type) where
  res : Option V
  err : Option Failure
  deriving DecidableEq

variable {V : Type}

def failed (code : Code) (message : String) : Outcome V := ⟨none, some (.coded ⟨code, message⟩)⟩

inductive Policy (V : Type) where
  | timeout (d : Int)
  | fallback (fn : Nat → String → V → Failure → Outcome V)
  | bulkhead (sem : Nat)
  | rateLimit
  | retry (cfg : RetryConfig Failure)
  | circuitBreaker (breaker : Nat) (isFailure : Option Failure → Bool)

/-- An interceptor whose `next` has not returned. -/
inductive Frame (V : Type) where
  | timeout (ctx : Nat)
  | fallback (fn : Nat → String → V → Failure → Outcome V) (ctx : Nat)
  | bulkhead (sem : Nat)
  | retry (cfg : RetryConfig Failure) (chain : List (Policy V)) (ctx attempt : Nat)
  | circuitBreaker (breaker : Nat) (isFailure : Option Failure → Bool)

inductive Mode (V : Type) where
  /-- `next(ctx, method, req)`, of this rest of the chain. -/
  | calls (chain : List (Policy V)) (ctx : Nat)
  /-- The `select` of a Retry after an attempt. -/
  | sleeps (cfg : RetryConfig Failure) (chain : List (Policy V)) (ctx attempt : Nat) (o : Outcome V)
  | returns (o : Outcome V)

/-- A call of `CallFunction`; `invoked` counts its calls of the network. -/
structure Thread (V : Type) where
  chain : List (Policy V)
  method : String
  req : V
  stack : List (Frame V)
  mode : Mode V
  invoked : Nat

/-! ## What the calls share -/

structure Instances where
  maxConcurrent : Nat → Int
  breakers : Nat → BreakerConfig

/-- The slots of a bulkhead: one at least. -/
def Instances.slots (c : Instances) (sem : Nat) : Nat :=
    (if c.maxConcurrent sem < 1 then 1 else c.maxConcurrent sem).toNat

/-- A context: the contexts it derives from, and its error once it is done. -/
structure Context where
  parents : List Nat
  err : Option Failure

structure Shared where
  now : Int
  /-- `len(sem)`. -/
  used : Nat → Nat
  breakers : Nat → String → Breaker
  ctxs : List Context

def Shared.ctxErr (u : Shared) (ctx : Nat) : Option Failure := (u.ctxs[ctx]?).bind Context.err

/-- A context is done, and those derived from it, unless they were before. -/
def Shared.finish (u : Shared) (ctx : Nat) (err : Failure) : Shared :=
  { u with ctxs := u.ctxs.mapIdx fun j x => if (j = ctx ∨ ctx ∈ x.parents) ∧ x.err = none then { x with
    err := some err } else x }

/-- `context.WithTimeout`: done at once when its parent is, or when there is no time. -/
def Shared.derive (u : Shared) (ctx : Nat) (d : Int) : Context :=
  ⟨ctx :: ((u.ctxs[ctx]?).map Context.parents).getD [],
    (u.ctxErr ctx).or (if d ≤ 0 then some .deadlineExceeded else none)⟩

def Shared.addCtx (u : Shared) (x : Context) : Shared := { u with ctxs := u.ctxs ++ [x] }

def Shared.setUsed (u : Shared) (sem n : Nat) : Shared := { u with used := update u.used sem n }

def Shared.setBreaker (u : Shared) (breaker : Nat) (method : String) (b : Breaker) : Shared :=
  { u with breakers := update u.breakers breaker (update (u.breakers breaker) method b) }

/-! ## The interceptors -/

variable (c : Instances)

/-- An interceptor up to its `next`: the frame it leaves, and what comes then. `ok` is the case of
    a bulkhead's `select`, and a bucket's answer. -/
def enter (u : Shared) (method : String) (chain : List (Policy V)) (ctx : Nat) (ok : Bool) :
    Policy V → Option (Shared × Option (Frame V) × Mode V)
  | .timeout d =>
    let new := u.ctxs.length
    some (u.addCtx (u.derive ctx d), some (.timeout new), .calls chain new)
  | .fallback fn => some (u, some (.fallback fn ctx), .calls chain ctx)
  | .bulkhead sem =>
    if ok then
      if u.used sem < c.slots sem then some (u.setUsed sem (u.used sem + 1), some (.bulkhead sem),
        .calls chain ctx) else none
    else
      match u.ctxErr ctx with
      | some err => some (u, none,
          .returns (failed .resourceExhausted ("bulkhead full for " ++ method.quote ++ ": " ++ err.text id)))
      | none => none
  | .rateLimit =>
    -- the bucket is asked, and its answer taken; nothing is left to do after `next`
    if ok then some (u, none, .calls chain ctx)
    else some (u, none, .returns (failed .resourceExhausted ("rate limit exceeded for " ++ method.quote)))
  | .retry cfg => some (u, some (.retry cfg chain ctx 1), .calls chain ctx)
  | .circuitBreaker breaker isFailure =>
    let (b, allowed) := (u.breakers breaker method).allow (c.breakers breaker) u.now
    let u := u.setBreaker breaker method b
    if allowed then some (u, some (.circuitBreaker breaker isFailure), .calls chain ctx)
    else some (u, none, .returns (failed .unavailable ("circuit breaker open for " ++ method.quote)))

def leave (u : Shared) (method : String) (req : V) (o : Outcome V) : Frame V → Option (Shared × Mode V)
  | .timeout ctx => some (u.finish ctx .canceled, .returns o)
  | .fallback fn ctx =>
    match o.err with
    | some err => some (u, .returns (fn ctx method req err))
    | none => some (u, .returns ⟨o.res, none⟩)
  | .bulkhead sem => if 0 < u.used sem then some (u.setUsed sem (u.used sem - 1), .returns o) else none
  | .retry cfg chain ctx attempt =>
    match o.err with
    | none => some (u, .returns o)
    | some err =>
      if cfg.maxAttempts ≤ attempt ∨ cfg.retryable method err = false then some (u, .returns o)
      else some (u, .sleeps cfg chain ctx attempt o)
  | .circuitBreaker breaker isFailure =>
    let b := (u.breakers breaker method).record (c.breakers breaker) u.now (isFailure o.err)
    some (u.setBreaker breaker method b, .returns o)

inductive Act (V : Type) where
  | enter (ok : Bool)
  | answer (o : Outcome V)
  | leave
  | wake (ended : Bool)

def Thread.go (u : Shared) (t : Thread V) : Act V → Option (Shared × Thread V)
  | .enter ok =>
    match t.mode with
    | .calls (p :: chain) ctx =>
      (enter c u t.method chain ctx ok p).map fun x => (x.1,
        { t with stack := x.2.1.toList ++ t.stack, mode := x.2.2 })
    | _ => none
  | .answer o =>
    match t.mode with
    | .calls [] _ => some (u, { t with mode := .returns o, invoked := t.invoked + 1 })
    | _ => none
  | .leave =>
    match t.mode, t.stack with
    | .returns o, f :: stack => (leave c u t.method t.req o f).map fun x => (x.1,
        { t with stack := stack, mode := x.2 })
    | _, _ => none
  | .wake ended =>
    match t.mode with
    | .sleeps cfg chain ctx attempt o =>
      if ended then
        if (u.ctxErr ctx).isSome then some (u, { t with mode := .returns o }) else none
      else some (u, { t with stack := .retry cfg chain ctx (attempt + 1) :: t.stack, mode := .calls chain ctx })
    | _ => none

/-! ## Calls -/

structure St (V : Type) where
  shared : Shared
  threads : List (Thread V)

inductive Ev (V : Type) where
  | call (chain : List (Policy V)) (method : String) (req : V)
  | go (i : Nat) (a : Act V)
  | tick (d : Nat)
  /-- A deadline passes, or a caller cancels. -/
  | done (ctx : Nat) (err : Failure)

def callFunction (s : St V) (chain : List (Policy V)) (method : String) (req : V) : St V :=
  ⟨s.shared.addCtx ⟨[], none⟩, s.threads ++ [⟨chain, method, req, [], .calls chain s.shared.ctxs.length, 0⟩]⟩

def step (s : St V) : Ev V → Option (St V)
  | .call chain method req => some (callFunction s chain method req)
  | .go i a =>
    match s.threads[i]? with
    | none => none
    | some t => (t.go c s.shared a).map fun x => ⟨x.1, s.threads.set i x.2⟩
  | .tick d => some { s with shared := { s.shared with now := s.shared.now + d } }
  | .done ctx err => some { s with shared := s.shared.finish ctx err }

def start (now : Int) : St V := ⟨⟨now, fun _ => 0, fun _ _ => .new, []⟩, []⟩

def sys (now : Int) : Sys (St V) (Ev V) := ⟨fun s => s = start now, step c⟩

end ValueRpc.Resilience.Chain
