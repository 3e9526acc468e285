import InlineCache.Caches.Request
import InlineCache.Plan
import InlineCache.Protocol

/-! # Calls through a call site

`invoke` runs the target of a call site if its guard holds. Else `update` looks for a new target and
completes the call. A shortcut goes through relays, and each relay through a call site of its own;
`relayWithin` bounds how deep that nests.
-/

namespace InlineCache.Engine

/-- Calls through a relay: the receiver goes in front of the arguments. -/
abbrev CallRelay := RelayRef → Value → List Value → Run CallError Value

/-- The general way, as a call site takes it. -/
def general (e : Engine) (s : Signature) (callee : Value) (args : List Value) :
    Run CallError Value :=
  Run.mapError .runtime (e.callWritten s callee args)

/-- The general way, counted. -/
def fallback (e : Engine) (ctx : SpecializerRef) (s : Signature) (callee : Value)
    (args : List Value) : Run CallError Value := do
  Run.count ctx .fallbacks
  e.general s callee args

/-! ## Targets -/

/-- Calls a function with the arguments of a call site. -/
def callPlanned (e : Engine) (f : FunctionRef) (plan : Option (List Nat)) (s : Signature)
    (args : List Value) : Run RuntimeError Value := do
  match plan with
  | some plan => e.enter (.function f (Plan.pick plan args))
  | none =>
    let laid ← Run.ofExcept (s.layOut (← Run.heap).typeName args)
    e.callFunction f laid

/-- Whether a shortcut is good for a callee and a number of arguments. -/
def matches? (w : World) (k : Shortcut) (callee : Value) (argc : Nat) : Option TypeRef :=
  match callee with
  | .type t =>
    if (w.heap.typeAt t).version = k.version ∧ argc = k.arity.count then some t else none
  | _ => none

/-- Makes the new object of a shortcut. -/
def runAllocation (e : Engine) (relay : CallRelay) (a : Allocation) (t : TypeRef)
    (args : List Value) : Run CallError Value := do
  match a with
  | .native l =>
    match ((← Run.heap).layoutAt l).ctors with
    | c :: _ => Run.mapError .runtime (e.construct l 0 c [.type t])
    | [] => Run.fail (.runtime (.notInstantiable ((← Run.heap).typeAt t).name))
  | .relay r => relay r (.type t) args

/-- Initializes a new object if it has the layout of the type; what the initializer gives back does
not matter. -/
def runInitializer (relay : CallRelay) (i : Option RelayRef) (t : TypeRef) (v : Value)
    (args : List Value) : Run CallError Value := do
  match i with
  | none => return v
  | some init =>
    let h ← Run.heap
    if v ≠ .none ∧ h.nativeLayout v = (h.layoutOf t).id then
      let _ ← relay init v args
    return v

/-- Runs a shortcut for a type. -/
def runShortcut (e : Engine) (relay : CallRelay) (k : Shortcut) (t : TypeRef) (args : List Value) :
    Run CallError Value := do
  let v ← e.runAllocation relay k.allocate t args
  runInitializer relay k.initializer t v args

/-- Runs a shortcut, or gives nothing if it is not good for the call. -/
def tryShortcut (e : Engine) (relay : CallRelay) (ctx : SpecializerRef) (k : ShortcutRef)
    (callee : Value) (args : List Value) : Run CallError (Option Value) := do
  let w ← get
  let shortcut := w.caches.shortcutAt k
  match matches? w shortcut callee args.length with
  | none => return none
  | some t =>
    Run.count ctx .fastHits
    some <$> e.runShortcut relay shortcut t args

/-! ## Call sites -/

/-- Gives a call site a target for a type and runs it. Gives nothing if the type is refused, or if
the shortcut is no good any more. -/
def updateForType (e : Engine) (relay : CallRelay) (ctx : SpecializerRef) (site : CallSiteRef)
    (shape : SiteShape) (t : TypeRef) (args : List Value) : Run CallError (Option Value) := do
  let w ← get
  match Caches.request w.heap ctx shape t w.caches with
  | .error err c =>
    set { w with caches := c }
    Run.fail (.bind err)
  | .ok (.error _) c =>
    set { w with caches := c.setTarget site none }
    return none
  | .ok (.ok k) c =>
    set { w with caches := c.setTarget site (some (.shortcut k)) }
    Run.holding k (e.tryShortcut relay ctx k (.type t) args)

/-- Looks for a new target and completes the call. A function becomes the target once its call is
over, also when that call fails. -/
def update (e : Engine) (relay : CallRelay) (ctx : SpecializerRef) (site : CallSiteRef)
    (callee : Value) (args : List Value) : Run CallError Value := do
  Run.count ctx .misses
  let shape := ((← Run.caches).siteAt site).shape
  match callee with
  | .type t =>
    match ← e.updateForType relay ctx site shape t args with
    | some v => return v
    | none => e.fallback ctx shape.signature callee args
  | .function f =>
    let plan := Plan.make? ((← Run.heap).functionAt f) shape.signature
    Run.always (Run.mapError .runtime (e.callPlanned f plan shape.signature args)) fun w =>
      { w with caches := w.caches.setTarget site (some (.function f plan)) }
  | _ => e.fallback ctx shape.signature callee args

/-- Runs a shortcut for a call site; a guard that fails makes the site look for a new target. -/
def executeShortcut (e : Engine) (relay : CallRelay) (ctx : SpecializerRef) (k : ShortcutRef)
    (site : CallSiteRef) (callee : Value) (args : List Value) : Run CallError Value := do
  match ← e.tryShortcut relay ctx k callee args with
  | some v => return v
  | none => e.update relay ctx site callee args

/-- Calls through a call site, with a given way to call through relays. -/
def invokeWith (e : Engine) (relay : CallRelay) (ctx : SpecializerRef) (site : CallSiteRef)
    (callee : Value) (args : List Value) : Run CallError Value := do
  let c ← Run.caches
  let { shape, target } := c.siteAt site
  let expected := shape.signature.arity
  if args.length ≠ expected then
    Run.fail (.bind (.argumentCount expected args.length))
  else match target with
    | none => e.update relay ctx site callee args
    | some (.shortcut k) =>
      Run.holding k <|
        if (c.settings ctx).enabled then e.executeShortcut relay ctx k site callee args
        -- The target stays, but it is not run.
        else e.fallback ctx shape.signature callee args
    | some (.function f plan) =>
      if callee = .function f then
        Run.mapError .runtime (e.callPlanned f plan shape.signature args)
      else e.update relay ctx site callee args

/-- Calls through a relay, with at most `depth` relays nested. -/
def relayWithin (e : Engine) (ctx : SpecializerRef) : (depth : Nat) → CallRelay
  | 0, _, _, _ => throw .exhausted
  | depth + 1, r, receiver, args => do
    let site ← Run.onCaches (·.relaySite r)
    let callable := ((← Run.caches).relayAt r).callable
    e.invokeWith (e.relayWithin ctx depth) ctx site callable (receiver :: args)

def callRelay (e : Engine) (ctx : SpecializerRef) : CallRelay := e.relayWithin ctx e.depth

/-- Calls `callee` through a call site, in the context of a specializer. -/
def invoke (e : Engine) (ctx : SpecializerRef) (site : CallSiteRef) (callee : Value)
    (args : List Value) : Run CallError Value :=
  e.invokeWith (e.callRelay ctx) ctx site callee args

end InlineCache.Engine
