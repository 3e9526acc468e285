import InlineCache.Proofs.Transparency
import InlineCache.Script

/-! # Programs

The bodies of a program are scripts. They change the heap and make calls. What holds of such runs,
and of whatever is made of runs of which it holds, holds of scripts, so they are steady. All that is
shown here of calls, whatever steady bodies do, holds of the calls of a program. -/

namespace InlineCache

open History

variable {o : Usage} {c₀ : Caches} {B : Prop}

/-- The contexts and call sites with a name exist, and each site may be used in each context. For
bodies that are blind to caches, the contexts of a site share one specializer. -/
structure Names.Allowed (n : Names) (o : Usage) (c : Caches) (B : Prop) : Prop where
  specializer : ∀ {name x}, n.contexts.get? name = some x → c.HasSpecializer x.specializer
  site : ∀ {name site}, n.sites.get? name = some site → c.HasSite site
  use : ∀ {name x name' site}, n.contexts.get? name = some x → n.sites.get? name' = some site →
    o site x.specializer
  only : B → ∀ {name x name' site}, n.contexts.get? name = some x →
    n.sites.get? name' = some site → ∀ s, o site s → s = x.specializer

namespace Scope

/-- The property holds of all that scripts are made of. -/
structure Supports (s : Scope) (P : ∀ {ε α : Type}, Run ε α → Prop) : Prop where
  closed : Closed P
  enters : ∀ E, P (s.engine.enter E)
  invokes : ∀ {name x name' site}, s.names.contexts.get? name = some x →
    s.names.sites.get? name' = some site →
    ∀ callee args, P (s.engine.invoke x.specializer site callee args)

variable {P : ∀ {ε α : Type}, Run ε α → Prop} {s : Scope}

/-! ## Expressions -/

section

variable (c : Closed P)

include c

theorem refuse_closed {α : Type} (fault : TypeFault) : P (refuse fault : Run CallError α) :=
  c.fail _

theorem find_closed {α : Type} (table : Table String α) (name : String) :
    P (find table name) := by
  unfold find
  split
  · exact c.pure _
  · exact refuse_closed c _

theorem typeIn_closed (v : Value) : P (typeIn v) := by
  unfold typeIn
  split
  · exact c.pure _
  · exact refuse_closed c _

theorem objectIn_closed (v : Value) : P (objectIn v) := by
  unfold objectIn
  split
  · exact c.pure _
  · exact refuse_closed c _

theorem box_closed {α : Type} (f : Nat → α) :
    P (f <$> Run.onHeap Heap.addBox : Run CallError α) :=
  c.map (c.onHeap Engine.addBox_change) f

theorem find_bind_closed {α β : Type} {table : Table String α} {name : String}
    {f : α → Run CallError β} (hf : ∀ a, table.get? name = some a → P (f a)) :
    P (find table name >>= f) := by
  unfold find
  cases h : table.get? name with
  | none => exact c.fail (CallError.runtime (.type (.unknownName name)))
  | some a => exact hf a h

end

mutual

theorem eval_closed (h : s.Supports P) : ∀ x : Expr, P (s.eval x)
  | .literal v => by
    unfold eval
    exact h.closed.pure v
  | .tuple items => by
    unfold eval
    exact h.closed.bind (evalAll_closed h items) fun vs => box_closed h.closed (Value.tuple · vs)
  | .name n => by
    unfold eval
    exact find_closed h.closed _ n
  | .staticMethod x => by
    unfold eval
    exact h.closed.bind (eval_closed h x) fun v => box_closed h.closed (Value.staticMethod · v)
  | .classMethod x => by
    unfold eval
    exact h.closed.bind (eval_closed h x) fun v => box_closed h.closed (Value.classMethod · v)
  | .instance_ type layout => by
    unfold eval
    refine h.closed.bind (eval_closed h type) fun v => ?_
    refine h.closed.bind (typeIn_closed h.closed v) fun t => ?_
    have add : ∀ l, P (do
        let id := ((← (Run.heap : Run CallError Heap)).layoutAt l).id
        Value.object <$> Run.onHeap (·.addObject t id)) := fun l =>
      h.closed.bind h.closed.heap fun _ =>
        h.closed.map (h.closed.onHeap fun _ => .aside rfl rfl rfl rfl) _
    cases layout with
    | some name => exact h.closed.bind (find_closed h.closed _ name) add
    | none => exact h.closed.bind h.closed.heap fun _ => h.closed.bind (h.closed.pure _) add
  | .allocate type => by
    unfold eval
    refine h.closed.bind (eval_closed h type) fun v => ?_
    refine h.closed.bind (typeIn_closed h.closed v) fun t => ?_
    exact h.closed.mapError _ (Engine.allocate_closed h.closed h.enters t)
  | .typeOf x => by
    unfold eval
    refine h.closed.bind (eval_closed h x) fun v => ?_
    refine h.closed.bind (objectIn_closed h.closed v) fun i => ?_
    exact h.closed.bind h.closed.heap fun _ => h.closed.pure _
  | .attribute x name => by
    unfold eval
    refine h.closed.bind (eval_closed h x) fun v => ?_
    refine h.closed.bind (objectIn_closed h.closed v) fun i => ?_
    refine h.closed.bind h.closed.heap fun _ => ?_
    split
    · exact h.closed.pure _
    · exact h.closed.bind h.closed.heap fun _ => h.closed.fail _
  | .minus a b => by
    unfold eval
    refine h.closed.bind (eval_closed h a) fun x => h.closed.bind (eval_closed h b) fun y => ?_
    split
    · exact h.closed.pure _
    · exact refuse_closed h.closed _
  | .argument i => by
    unfold eval
    split
    · exact h.closed.pure _
    · exact refuse_closed h.closed _
  | .call _ callee args keywords => by
    unfold eval
    refine h.closed.bind (eval_closed h callee) fun f => ?_
    refine h.closed.bind (evalAll_closed h args) fun positional => ?_
    refine h.closed.bind (evalKeywords_closed h keywords) fun keywords => ?_
    exact h.closed.mapError _ (Engine.callWithin_closed h.closed h.enters _ f _)
  | .invoke context site callee args => by
    unfold eval
    refine find_bind_closed h.closed fun ctx hctx => ?_
    refine find_bind_closed h.closed fun site hsite => ?_
    refine h.closed.bind (eval_closed h callee) fun f => ?_
    exact h.closed.bind (evalAll_closed h args) fun args => h.invokes hctx hsite f args

theorem evalAll_closed (h : s.Supports P) : ∀ xs : List Expr, P (s.evalAll xs)
  | [] => by
    unfold evalAll
    exact h.closed.pure []
  | x :: rest => by
    unfold evalAll
    refine h.closed.bind (eval_closed h x) fun v => ?_
    exact h.closed.bind (evalAll_closed h rest) fun vs => h.closed.pure _

theorem evalKeywords_closed (h : s.Supports P) :
    ∀ xs : List (String × Expr), P (s.evalKeywords xs)
  | [] => by
    unfold evalKeywords
    exact h.closed.pure []
  | (name, x) :: rest => by
    unfold evalKeywords
    refine h.closed.bind (eval_closed h x) fun v => ?_
    exact h.closed.bind (evalKeywords_closed h rest) fun vs => h.closed.pure _

end

/-! ## Statements -/

mutual

theorem execOne_closed (h : s.Supports P) : ∀ stmt : Stmt, P (s.execOne stmt)
  | .setAttr target name value => by
    unfold execOne
    refine h.closed.bind (eval_closed h target) fun v => ?_
    refine h.closed.bind (objectIn_closed h.closed v) fun i => ?_
    refine h.closed.bind (eval_closed h value) fun v => ?_
    have set (k : Heap) : k.Change (k.setObjectAttr i name v) := .aside rfl rfl rfl rfl
    exact h.closed.bind (h.closed.modifyHeap set) fun _ => h.closed.pure none
  | .setTypeAttr target name value => by
    unfold execOne
    refine h.closed.bind (eval_closed h target) fun v => ?_
    refine h.closed.bind (typeIn_closed h.closed v) fun t => ?_
    refine h.closed.bind (eval_closed h value) fun v => ?_
    have set (k : Heap) : k.Change (k.setAttr t name v) := .setAttr t name v
    exact h.closed.bind (h.closed.modifyHeap set) fun _ => h.closed.pure none
  | .deleteTypeAttr target name => by
    unfold execOne
    refine h.closed.bind (eval_closed h target) fun v => ?_
    refine h.closed.bind (typeIn_closed h.closed v) fun t => ?_
    have delete (k : Heap) : k.Change (k.deleteAttr t name).2 := .deleteAttr t name
    exact h.closed.bind (h.closed.modifyHeap delete) fun _ => h.closed.pure none
  | .perform x => by
    unfold execOne
    exact h.closed.bind (eval_closed h x) fun _ => h.closed.pure none
  | .return_ x => by
    unfold execOne
    exact h.closed.bind (eval_closed h x) fun v => h.closed.pure (some v)
  | .ifPositive x body => by
    unfold execOne
    refine h.closed.bind (eval_closed h x) fun v => ?_
    split
    · split
      · exact exec_closed h body
      · exact h.closed.pure none
    · exact h.closed.pure none
  | .raise e => by
    unfold execOne
    exact h.closed.fail _

theorem exec_closed (h : s.Supports P) : ∀ script : Script, P (s.exec script)
  | [] => by
    unfold exec
    exact h.closed.pure none
  | stmt :: rest => by
    unfold exec
    refine h.closed.bind (execOne_closed h stmt) fun v? => ?_
    cases v? with
    | some v => exact h.closed.pure (some v)
    | none => exact exec_closed h rest

end

end Scope

/-! ## Bodies -/

namespace Program

variable {p : Program}

/-- What holds of scripts if it holds of the bodies that they enter holds of bodies, however many of
them may become active. -/
theorem run_closed {P : ∀ {ε α : Type}, Run ε α → Prop} (closed : Closed P)
    (supports : ∀ left args, (∀ E, P (p.run left E)) →
      Scope.Supports ⟨⟨p.run left, dispatchLimit⟩, p.names, args⟩ P)
    (left : Nat) (E : Entry) : P (p.run left E) := by
  induction left generalizing E with
  | zero => exact closed.fail _
  | succ left ih =>
    have script := Scope.exec_closed (supports left E.args ih) (p.scripts.of E.body)
    exact closed.bind (closed.mapError bodyError script) fun value => closed.pure _

theorem bodies (allowed : p.names.Allowed o c₀ B) : Bodies o c₀ B p.engine := by
  refine run_closed (steady_closed o c₀ B) (fun left args active => ?_) bodyLimit
  have active : Bodies o c₀ B ⟨p.run left, dispatchLimit⟩ := active
  refine ⟨steady_closed o c₀ B, active.enter, fun hctx hsite callee args => ?_⟩
  exact Engine.invoke_steady active (allowed.specializer hctx) (allowed.site hsite)
    (allowed.use hctx hsite) (fun b => allowed.only b hctx hsite) callee args

/-- A call by a program through one of its call sites ends like the same call with nothing cached,
also where its bodies change types or call through the same site again. -/
theorem invoke_agrees_uncached {H : History} (hr : Reachable o H)
    (allowed : p.names.Allowed o H.caches True) {context name : String} {x : Context}
    {site : CallSiteRef} (hctx : p.names.contexts.get? context = some x)
    (hsite : p.names.sites.get? name = some site) (callee : Value) (args : List Value) :
    Agree (p.engine.invoke x.specializer site callee args H.world)
      (p.engine.uncached (H.caches.settings x.specializer) (H.caches.siteAt site).shape callee args
        H.world) := by
  have start : From o H.caches H := ⟨hr, .refl _⟩
  apply Engine.invoke_agrees_uncached (bodies allowed) trivial ⟨start, start, rfl, rfl⟩
  · exact allowed.specializer hctx
  · exact allowed.site hsite
  · exact allowed.use hctx hsite
  · exact allowed.only trivial hctx hsite

end Program

end InlineCache
