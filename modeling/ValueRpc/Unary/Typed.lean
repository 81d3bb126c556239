/-
  ValueRpc.Unary.Typed — typed calls of typed handlers (`valuerpc/codec.go`: `Codec`;
  `valueserver/typed.go`: `AddUnary`; `valueclient/typed.go`: `CallUnary`).

  `AddUnary` registers a handler that decodes its arguments, calls a typed function and encodes
  its answer; `CallUnary` encodes a request, makes the call, and decodes the result. What is
  decoded is not what was encoded but what the wire made of it: a nil is a Null there, and a
  Null result is a nil again.

  `typed_call`: where the codecs read what arrives, a `CallUnary` that got a reply has the
  function's answer to its own request, or was turned away by a busy server.
-/

import ValueRpc.Unary.Replies

namespace ValueRpc.Unary

open ValueRpc.Core ValueRpc.Core.Envelope ValueRpc.Core.Verify ValueRpc.Lib
open ValueRpc.Route (Side requestId)

variable {Req Resp : Type} {c : Cfg} {s s' : St} {name : Bytes}

structure Codec (T : Type) where
  encode : T → Val
  decode : Val → Except Bytes T

def Codec.ReadsArgs (codec : Codec Req) : Prop := ∀ x, codec.decode (codec.encode x).wire = .ok x

def Codec.ReadsResults (codec : Codec Resp) : Prop := ∀ y, codec.decode (orNil (codec.encode y).wire) = .ok y

/-- The handler of `AddUnary`; it is registered with Any for its arguments and results. -/
def addUnary (reqCodec : Codec Req) (respCodec : Codec Resp) (fn : Ctx → Req → Except Err Resp) (ctx : Ctx)
    (args : Val) : Out :=
  match reqCodec.decode args with
  | .error err => .fails (.coded ⟨codeNum .invalidArgument, str "decode request: " ++ err⟩)
  | .ok req =>
    match fn ctx req with
    | .error err => .fails err
    | .ok resp => .returns (respCodec.encode resp)

inductive TypedErr where
  | call (e : RpcError)
  | decode (text : Bytes)
  deriving DecidableEq, Repr

def callUnary (respCodec : Codec Resp) : Reply → Except TypedErr Resp
  | .error e => .error (.call e)
  | .ok res => (respCodec.decode res).mapError .decode

/-- The handler under a name is this one. -/
def served (name : Bytes) (handler : Ctx → Val → Out) (s : St) : Ev → Prop
  | .call σ req => ok s (.call σ req)
  | .finish j out => ∀ k h, s.work[j]? = some (k, .handling .server h) → h.name = name → out = handler h.ctx h.args
  | _ => True

theorem ok_of_served {handler : Ctx → Val → Out} {e : Ev} (h : served name handler s e) : ok s e := by
  cases e with
  | call σ req => exact h
  | _ => trivial

theorem runs_act (s : St) (j : Nat) (σ : Side) (k : Key) (a : Action) : (act s j σ k a).runs = s.runs := by
  cases a with
  | completes id r =>
    simp only [act, St.complete]
    split <;> rfl
  | _ => rfl

/-- Only a handler that returns puts a run on record. -/
theorem step_runs {e : Ev} (hs : step c s e = some s') : s'.runs = s.runs ∨
    ∃ j out k σ h, e = .finish j out ∧ s.work[j]? = some (k, .handling σ h) ∧ s'.runs = s.runs ++
      [(k, ⟨σ, h.name, h.ctx, h.args, out⟩)] := by
  cases e with
  | call σ req =>
    cases hs
    exact .inl rfl
  | recv j =>
    simp only [step] at hs
    split at hs
    · cases hs
      exact .inl (runs_act ..)
    · cases hs
  | finish j out =>
    simp only [step] at hs
    split at hs
    · rename_i k σ hd hw
      refine .inr ⟨j, out, k, σ, hd, rfl, hw, ?_⟩
      split at hs
      · cases hs
        cases σ <;> rfl
      · split at hs
        · cases hs
        · cases hs
          rfl
    · cases hs
  | _ =>
    simp only [step] at hs
    repeat' split at hs
    all_goals
      cases hs
      try exact .inl rfl

/-- Every run of the server on record is the handler's. -/
theorem runs_served {handler : Ctx → Val → Out} (h : (sys c).Reach (served name handler) s) :
    ∀ x ∈ s.runs, x.2.side = .server → x.2.name = name → x.2.out = handler x.2.ctx x.2.args := by
  refine h.inv (P := fun s => ∀ x ∈ s.runs, x.2.side = .server → x.2.name = name → x.2.out = handler x.2.ctx x.2.args)
    (fun s hs => ?_) fun s e s' hi ho hs => ?_
  · cases hs
    intro x hx
    cases hx
  · obtain hr | ⟨j, out, k, σ, hd, rfl, hw, hr⟩ := step_runs hs
    · rw [hr]
      exact hi
    · rw [hr]
      intro x hx hσ hn
      rcases List.mem_append.mp hx with hx | hx
      · exact hi x hx hσ hn
      · cases List.mem_singleton.mp hx
        cases hσ
        exact ho k hd hw hn

/-- A typed call that got a reply has the typed function's answer to its request, with the call's
    context, or the server was busy. -/
theorem typed_call {reqCodec : Codec Req} {respCodec : Codec Resp} {fn : Ctx → Req → Except Err Resp}
    (hd : c.d.Distinct) (hany : c.functions .server name = some ⟨.unary, .any, .any⟩)
    (hreq : reqCodec.ReadsArgs) (hresp : respCodec.ReadsResults)
    (h : (sys c).Reach (served name (addUnary reqCodec respCodec fn)) s) {i : Nat} {call : Call} {x : Req}
    {r : Reply} (hc : (s.calls .client)[i]? = some call) (hn : call.req.name = name)
    (hx : call.req.args = reqCodec.encode x) (hr : call.status = .returned r) :
    (0 < c.maxConcurrentRequests ∧ callUnary respCodec r = .error (.call (busy c))) ∨
    callUnary respCodec r =
      match fn (ctxOf c .client call.req) x with
      | .ok resp => .ok resp
      | .error err => .error (.call (handlerError str (str "function " ++ name) err)) := by
  have hreach : (sys c).Reach ok s :=
    h.inv (fun s hs => .init hs) fun s e s' hi ho hs => hi.step (ok_of_served ho) hs
  have hadm : admits c .server call.req.name call.req.args.wire = .ok ⟨.unary, .any, .any⟩ := by
    simp [admits, hn, hany, verify]
  obtain ⟨e, href, rfl, -⟩ | ⟨fn', out, sent, hok, hran, hsent, rfl⟩ := (inv_reach hd hreach).explained hc hr
  · obtain he | ⟨-, hmax, rfl⟩ := href
    · have he : admits c .server call.req.name call.req.args.wire = .error e := he
      rw [hadm] at he
      cases he
    · exact .inl ⟨hmax, rfl⟩
  · right
    have hok : admits c .server call.req.name call.req.args.wire = .ok fn' := hok
    rw [hadm] at hok
    cases hok
    -- the run on record is the typed handler's, on what the codec reads back
    have hmem : ((.client, i),
      (⟨.server, call.req.name, ctxOf c .client call.req, call.req.args.wire, out⟩ : Run)) ∈ s.runs := by
      refine mem_row.mp ?_
      rw [hran]
      exact .head _
    have hout : out = addUnary reqCodec respCodec fn (ctxOf c .client call.req) call.req.args.wire :=
      runs_served h _ hmem rfl hn
    have hdec : reqCodec.decode call.req.args.wire = .ok x := by rw [hx, hreq x]
    simp only [addUnary, hdec] at hout
    cases hfn : fn (ctxOf c .client call.req) x with
    | ok resp =>
      rw [hfn] at hout
      subst hout
      cases hsent
      simp only [callUnary, received, hresp resp]
      rfl
    | error err =>
      rw [hfn] at hout
      subst hout
      cases hsent
      rw [← hn]
      rfl

def longCodec : Codec Int where
  encode := long
  decode
    | .number n => .ok n.long
    | _ => .error (str "not a number")

def voidCodec : Codec Unit := ⟨fun _ => .nil, fun _ => .ok ()⟩

def five (_ : Ctx) (_ : Unit) : Except Err Int := .ok 5

def returnsFive : Out → Bool
  | .returns (.number n) => decide (n = num 5)
  | _ => false

def allFive (s : St) : Ev → Prop
  | .call σ req => ok s (.call σ req)
  | .finish _ out => returnsFive out = true
  | _ => True

instance (s : St) (e : Ev) : Decidable (allFive s e) :=
  match e with
  | .call σ req => inferInstanceAs (Decidable (ok s (.call σ req)))
  | .finish _ out => inferInstanceAs (Decidable (returnsFive out = true))
  | .recv _ | .serve _ | .ends | .take _ _ | .giveUp _ _ _ | .lose _ => .isTrue trivial

theorem served_of_five {e : Ev} (h : allFive s e) : served name (addUnary voidCodec longCodec five) s e := by
  cases e with
  | call σ req => exact h
  | finish j out =>
    intro k hd hw _
    replace h : returnsFive out = true := h
    unfold returnsFive at h
    split at h
    · rw [of_decide_eq_true h]
      rfl
    · cases h
  | _ => trivial

def asksFive : Option Call → Bool
  | some ⟨⟨name, .nil, _, _⟩, _⟩ => decide (name = str "greet")
  | _ => false

theorem asksFive_some {call : Call} (h : asksFive (some call) = true) :
    call.req.name = str "greet" ∧ call.req.args = .nil := by
  unfold asksFive at h
  split at h
  · rename_i he
    cases he
    exact ⟨of_decide_eq_true h, rfl⟩
  · cases h

theorem typed_call_five :
    ∃ s call x, (sys greeter).Reach (served (str "greet") (addUnary voidCodec longCodec five)) s ∧
    (s.calls .client)[0]? = some call ∧ call.status = .returned (.ok (.number x)) ∧
    (0 < greeter.maxConcurrentRequests ∧ callUnary longCodec (.ok (.number x)) = .error (.call (busy greeter)) ∨
      callUnary longCodec (.ok (.number x)) = .ok 5) := by
  obtain ⟨s, hr, h1, h2⟩ := (sys greeter).reach_of_exec allFive start rfl
    [.call .client ⟨str "greet", .nil, [], 0⟩, .recv 0, .serve 0, .finish 0 (.returns (long 5)), .recv 0,
      .take .client 0]
    (P := fun s => returnedLong (s.calls .client)[0]? = some 5 ∧ asksFive (s.calls .client)[0]? = true)
      (by decide +kernel)
  obtain ⟨call, x, hc, hst, -⟩ := returnedLong_some h1
  rw [hc] at h2
  obtain ⟨hn, hx⟩ := asksFive_some h2
  have hr' : (sys greeter).Reach (served (str "greet") (addUnary voidCodec longCodec five)) s :=
    hr.inv (fun s hs => .init hs) fun s e s' hi ho hs => hi.step (served_of_five ho) hs
  exact ⟨s, call, x, hr', hc, hst,
    typed_call newDialect_distinct rfl (fun _ => rfl) (fun _ => rfl) hr' hc hn (x := ()) hx hst⟩

end ValueRpc.Unary
