import InlineCache.Proofs.Construction
import InlineCache.Proofs.Transparency

/-! # The fast path agrees with the general protocol

A shortcut and the general protocol run the same bodies and end alike, except where `__init__` gives
something back: the shortcut does not look at it. -/

namespace InlineCache.Engine

open History

variable {o : Usage} {c₀ : Caches} {e : Engine} {K : History} {ctx : SpecializerRef}
  {settings : Settings} {shape : SiteShape} {r : Recipe} {t : TypeRef} {args : List Value}
  {laid : CallArgs} {d : Nat}

/-- Following the recipe, `__init__` runs on the object made, which is `v`, and gives `x` back. -/
def InitGives (e : Engine) (s : Signature) (r : Recipe) (t : TypeRef) (args : List Value)
    (w : World) (v x : Value) : Prop :=
  ∃ f w₁ w₂, e.makeObject s r.maker t args w = .ok v w₁ ∧ r.initializer = some f ∧ v ≠ .none ∧
    w₁.heap.nativeLayout v = (w₁.heap.layoutOf t).id ∧ e.relayed f s v args w₁ = .ok x w₂

/-- Whatever object is made, making it leaves the attributes of types as they are, and the object is
settled. -/
def Settles (x : Run CallError Value) (t : TypeRef) (w : World) : Prop :=
  ∀ v w₁, x w = .ok v w₁ → Settled w₁.heap t v ∧
    ∀ u, w.heap.Has u → (w₁.heap.typeAt u).attrs = (w.heap.typeAt u).attrs

theorem lookup_of_attrs {h h' : Heap} (g : h.Grows h') (hh : h.Hierarchy) (ht : h.Has t)
    (attrs : ∀ u, h.Has u → (h'.typeAt u).attrs = (h.typeAt u).attrs) (name : String) :
    h'.lookup t name = h.lookup t name := by
  obtain ⟨_, _, _, htype⟩ := g.type t ht
  apply Heap.lookup_congr
  · rw [Heap.line, Heap.line, htype]
  · exact fun x hx => attrs x (hh.has_of_mem_line ht hx)

theorem recipe_of_attrs {h h' : Heap} (g : h.Grows h') (hh : h.Hierarchy)
    (hr : h.recipe settings shape t = .ok r)
    (attrs : ∀ u, h.Has u → (h'.typeAt u).attrs = (h.typeAt u).attrs) :
    h'.recipe settings shape t = .ok r := by
  have ht := Heap.has_of_recipe hr
  rw [← hr]
  exact Heap.recipe_of_lookup g hh ht (lookup_of_attrs g hh ht attrs) _ _

theorem initGives_iff {s : Signature} {w w₁ : World} {v v' x : Value}
    (hmake : e.makeObject s r.maker t args w = .ok v w₁) :
    e.InitGives s r t args w v' x ↔ v' = v ∧ ∃ f w₂, r.initializer = some f ∧ v ≠ .none ∧
      w₁.heap.nativeLayout v = (w₁.heap.layoutOf t).id ∧ e.relayed f s v args w₁ = .ok x w₂ := by
  constructor
  · rintro ⟨f, w₁', w₂, hmake', hf, hv, hlayout, hrelayed⟩
    rw [hmake] at hmake'
    cases hmake'
    exact ⟨rfl, f, w₂, hf, hv, hlayout, hrelayed⟩
  · rintro ⟨rfl, f, w₂, hf, hv, hlayout, hrelayed⟩
    exact ⟨f, w₁, w₂, hmake, hf, hv, hlayout, hrelayed⟩

theorem finishObject_general {w : World} {v : Value} (hh : w.heap.Hierarchy) (fits : w.heap.Fits)
    (hr : w.heap.recipe settings shape t = .ok r) {n : Value → String}
    (hlaid : shape.signature.layOut n args = .ok laid) (hdepth : e.depth ≠ 0) (d : Nat)
    (settled : Settled w.heap t v) :
    (e.finishObject shape.signature r.initializer t v args w =
        Run.mapError CallError.runtime (initObject (e.callWithin d) t v laid) w ∧
      ∀ f x w₂, r.initializer = some f → w.heap.nativeLayout v = (w.heap.layoutOf t).id →
        e.relayed f shape.signature v args w = .ok x w₂ → x = .none) ∨
    ∃ f x w₂, r.initializer = some f ∧ v ≠ .none ∧
      w.heap.nativeLayout v = (w.heap.layoutOf t).id ∧
      e.relayed f shape.signature v args w = .ok x w₂ ∧ x ≠ .none ∧
      e.finishObject shape.signature r.initializer t v args w = .ok v w₂ ∧
      Run.mapError CallError.runtime (initObject (e.callWithin d) t v laid) w =
        .error (.error (CallError.runtime (.initReturned (w₂.heap.typeName x)))) w₂ := by
  rcases finish_cases hh fits hr hlaid hdepth d settled with
    ⟨hskip, hfinish, hinit⟩ | ⟨f, hf, hv, hlayout, hfinish, hinit⟩
  · left
    constructor
    · rw [hfinish, Run.mapError, hinit]
    · intro f x w₂ hf hlayout
      rcases hskip with hnone | hne
      · simp [hnone] at hf
      · exact absurd hlayout hne
  · rw [hfinish, hinit, Run.bind_apply, Run.bind_apply]
    -- The same `__init__` runs both ways. What it gives back decides.
    have only : ∀ f' x' w₂', r.initializer = some f' →
        e.relayed f' shape.signature v args w = .ok x' w₂' →
        e.relayed f shape.signature v args w = .ok x' w₂' := by
      intro f' x' w₂' hf' hrelayed'
      obtain rfl : f = f' := Option.some.inj (hf.symm.trans hf')
      exact hrelayed'
    cases hrelayed : e.relayed f shape.signature v args w with
    | error st w₂ =>
      refine Or.inl ⟨rfl, fun f' x' w₂' hf' _ hrelayed' => ?_⟩
      have same := only f' x' w₂' hf' hrelayed'
      rw [hrelayed] at same
      cases same
    | ok x w₂ =>
      by_cases hx : x = .none
      · subst hx
        refine Or.inl ⟨rfl, fun f' x' w₂' hf' _ hrelayed' => ?_⟩
        have same := only f' x' w₂' hf' hrelayed'
        rw [hrelayed] at same
        cases same
        rfl
      · refine Or.inr ⟨f, x, w₂, hf, hv, hlayout, hrelayed, hx, rfl, ?_⟩
        cases x with
        | none => exact absurd rfl hx
        | _ => rfl

/-- A recipe and the general protocol end alike, unless `__init__` gives something back. -/
theorem runRecipe_general (hfrom : From o c₀ K) (bodies : Bodies o c₀ True e)
    (hr : K.heap.recipe settings shape t = .ok r)
    (hlaid : shape.signature.layOut K.heap.typeName args = .ok laid) (hdepth : e.depth = d + 1)
    (settles : Settles (e.makeObject shape.signature r.maker t args) t K.world)
    (fits : (Run.world (e.runRecipe shape.signature r t args K.world)).heap.Fits) :
    (Run.seen (e.runRecipe shape.signature r t args K.world) =
        Run.seen (e.general shape.signature (.type t) args K.world) ∧
      ∀ v x, e.InitGives shape.signature r t args K.world v x → x = .none) ∨
    ∃ v x w₂, e.InitGives shape.signature r t args K.world v x ∧ x ≠ .none ∧
      e.runRecipe shape.signature r t args K.world = .ok v w₂ ∧
      e.general shape.signature (.type t) args K.world =
        .error (.error (.runtime (.initReturned (w₂.heap.typeName x)))) w₂ := by
  have hlands := (makeObject_steady bodies shape.signature r.maker t args).moves K hfrom
  have fits := fits_of_bind hfrom.reachable hlands (fun v K' run _ =>
    (finishObject_steady bodies _ _ t v args).moves K' (hfrom.trans run)) fits
  rw [general_type_eq hr hlaid hdepth]
  unfold runRecipe
  rw [Run.bind_apply, Run.bind_apply]
  cases hmake : e.makeObject shape.signature r.maker t args K.world with
  | error st w₁ =>
    refine Or.inl ⟨rfl, ?_⟩
    rintro v x ⟨f, w₁, w₂, hmake', -⟩
    simp [hmake] at hmake'
  | ok v w₁ =>
    obtain ⟨K₁, run, hK₁⟩ := hlands
    rw [hmake] at hK₁ fits
    obtain rfl : K₁.world = w₁ := hK₁
    obtain ⟨settled, attrs⟩ := settles v _ hmake
    have grows := hfrom.reachable.grows run
    have hr₁ := recipe_of_attrs grows.heap hfrom.reachable.sane.hierarchy hr attrs
    have hh₁ := (hfrom.trans run).reachable.sane.hierarchy
    rcases finishObject_general hh₁ fits hr₁ hlaid (e := e) (by omega) d settled with
      ⟨same, hnone⟩ | ⟨f, x, w₂, hf, hv, hlayout, hrelayed, hx, hfinish, hinit⟩
    · refine Or.inl ⟨congrArg Run.seen same, ?_⟩
      intro v' x hgives
      obtain ⟨-, f, w₂, hf, -, hlayout, hrelayed⟩ := (initGives_iff hmake).mp hgives
      exact hnone f x w₂ hf hlayout hrelayed
    · have hgives : e.InitGives shape.signature r t args K.world v x :=
        (initGives_iff hmake).mpr ⟨rfl, f, w₂, hf, hv, hlayout, hrelayed⟩
      exact Or.inr ⟨v, x, w₂, hgives, hx, hfinish, hinit⟩

/-! ## The same for a shortcut -/

/-- Running the shortcut, `__init__` runs on the object made, which is `v`, and gives `x` back. -/
def InitReturns (e : Engine) (relay : CallRelay) (k : Shortcut) (t : TypeRef) (args : List Value)
    (w : World) (v x : Value) : Prop :=
  ∃ i w₁ w₂, e.runAllocation relay k.allocate t args w = .ok v w₁ ∧ k.initializer = some i ∧
    v ≠ .none ∧ w₁.heap.nativeLayout v = (w₁.heap.layoutOf t).id ∧ relay i v args w₁ = .ok x w₂

section

variable {s : Signature} {k : Shortcut}

variable (ctx) in
theorem seen_runAllocation (hfrom : From o c₀ K) (bodies : Bodies o c₀ True e)
    (makes : K.caches.Makes s.withReceiver k.allocate r.maker) (hargs : args.length = s.arity)
    (fits : (Run.world (e.runRecipe s r t args K.world)).heap.Fits) :
    Run.seen (e.runAllocation (e.callRelay ctx) k.allocate t args K.world) =
      Run.seen (e.makeObject s r.maker t args K.world) := by
  have alike : Alike o c₀ K K := ⟨hfrom, hfrom, rfl, rfl⟩
  apply runAllocation_agrees bodies trivial alike makes t hargs
  right
  apply fits_of_bind hfrom.reachable ((makeObject_steady bodies s r.maker t args).moves K hfrom) ?_
    fits
  exact fun v K' run _ => (finishObject_steady bodies _ _ t v args).moves K' (hfrom.trans run)

theorem seen_callRelay (hfrom : From o c₀ K) (bodies : Bodies o c₀ True e) {i : RelayRef}
    {f : FunctionRef} (calls : K.caches.RelaysTo i f s.withReceiver) (hf : r.initializer = some f)
    (hargs : args.length = s.arity)
    (fits : (Run.world (e.runRecipe s r t args K.world)).heap.Fits) {v : Value} {w₁ w₂ : World}
    (hmade : e.runAllocation (e.callRelay ctx) k.allocate t args K.world = .ok v w₁)
    (hmade' : e.makeObject s r.maker t args K.world = .ok v w₂) (heap : w₁.heap = w₂.heap)
    (trace : w₁.trace = w₂.trace) (hv : v ≠ .none)
    (hlayout : w₂.heap.nativeLayout v = (w₂.heap.layoutOf t).id) :
    Run.seen (e.callRelay ctx i v args w₁) = Run.seen (e.relayed f s v args w₂) := by
  obtain ⟨K₁, run₁, hK₁⟩ := runAllocation_moves bodies (relayWithin_moves bodies ctx e.depth)
    k.allocate t args K hfrom
  obtain ⟨K₂, run₂, hK₂⟩ := (makeObject_steady bodies s r.maker t args).moves K hfrom
  change _ = Run.world (e.runAllocation (e.callRelay ctx) k.allocate t args K.world) at hK₁
  rw [hmade] at hK₁
  rw [hmade'] at hK₂
  obtain rfl : K₁.world = w₁ := hK₁
  obtain rfl : K₂.world = w₂ := hK₂
  have alike : Alike o c₀ K₁ K₂ := ⟨hfrom.trans run₁, hfrom.trans run₂, heap, trace⟩
  have calls₁ := calls.mono (hfrom.reachable.grows run₁).caches
  apply callRelay_agrees bodies trivial alike calls₁ v hargs
  right
  unfold runRecipe finishObject at fits
  rw [Run.bind_apply, hmade', hf] at fits
  dsimp only at fits
  rw [heap_bind, if_pos ⟨hv, hlayout⟩] at fits
  exact fits_of_bind (f := fun _ => pure v) alike.right.reachable
    ((relayed_steady bodies f s v args).moves K₂ alike.right) (fun _ K' _ _ => .here o K') fits

variable (ctx) in
theorem initReturns_iff (hfrom : From o c₀ K) (bodies : Bodies o c₀ True e)
    (realizes : K.caches.Realizes s k r) (hargs : args.length = s.arity)
    (fits : (Run.world (e.runRecipe s r t args K.world)).heap.Fits) (v x : Value) :
    e.InitReturns (e.callRelay ctx) k t args K.world v x ↔ e.InitGives s r t args K.world v x := by
  have same := seen_runAllocation ctx hfrom bodies realizes.maker hargs fits
  have initializes := realizes.initializer
  constructor
  · rintro ⟨i, w₁, w₂, hmade, hi, hv, hlayout, hrelay⟩
    obtain ⟨w₁', hmade', heap, trace⟩ := Run.eq_ok_of_seen same hmade
    rw [hi] at initializes
    cases hf : r.initializer with
    | none =>
      rw [hf] at initializes
      cases initializes
    | some f =>
      rw [hf] at initializes
      cases initializes with
      | some calls =>
        rw [heap] at hlayout
        have same' := seen_callRelay hfrom bodies calls hf hargs fits hmade hmade' heap trace hv
          hlayout
        obtain ⟨w₂', hrelayed, -, -⟩ := Run.eq_ok_of_seen same' hrelay
        exact ⟨f, w₁', w₂', hmade', hf, hv, hlayout, hrelayed⟩
  · rintro ⟨f, w₁, w₂, hmade, hf, hv, hlayout, hrelayed⟩
    obtain ⟨w₁', hmade', heap, trace⟩ := Run.eq_ok_of_seen same.symm hmade
    rw [hf] at initializes
    cases hi : k.initializer with
    | none =>
      rw [hi] at initializes
      cases initializes
    | some i =>
      rw [hi] at initializes
      cases initializes with
      | some calls =>
        have same' := seen_callRelay hfrom bodies calls hf hargs fits hmade' hmade heap.symm
          trace.symm hv hlayout
        obtain ⟨w₂', hrelay, -, -⟩ := Run.eq_ok_of_seen same'.symm hrelayed
        exact ⟨i, w₁', w₂', hmade', hi, hv, heap ▸ hlayout, hrelay⟩

end

theorem InitGives.unique {s : Signature} {w : World} {v v' x x' : Value}
    (h : e.InitGives s r t args w v x) (h' : e.InitGives s r t args w v' x') : v = v' ∧ x = x' := by
  obtain ⟨f, w₁, w₂, hmade, hf, -, -, hrelayed⟩ := h
  obtain ⟨rfl, f', w₂', hf', -, -, hrelayed'⟩ := (initGives_iff hmade).mp h'
  obtain rfl : f = f' := Option.some.inj (hf.symm.trans hf')
  rw [hrelayed] at hrelayed'
  cases hrelayed'
  exact ⟨rfl, rfl⟩

/-- What the shortcut and the general protocol have in common, and what not, in a world `w`. -/
structure AgreesWithGeneral (e : Engine) (ctx : SpecializerRef) (k : ShortcutRef) (s : Signature)
    (t : TypeRef) (args : List Value) (w : World) : Prop where
  heap : (Run.world (e.tryShortcut (e.callRelay ctx) ctx k (.type t) args w)).heap =
    (Run.world (e.general s (.type t) args w)).heap
  trace : (Run.world (e.tryShortcut (e.callRelay ctx) ctx k (.type t) args w)).trace =
    (Run.world (e.general s (.type t) args w)).trace
  same : (∀ v x, e.InitReturns (e.callRelay ctx) (w.caches.shortcutAt k) t args w v x → x = .none) →
    Run.outcome (e.tryShortcut (e.callRelay ctx) ctx k (.type t) args w) =
      some <$> Run.outcome (e.general s (.type t) args w)
  different : ∀ v x, e.InitReturns (e.callRelay ctx) (w.caches.shortcutAt k) t args w v x →
    x ≠ .none →
    Run.outcome (e.tryShortcut (e.callRelay ctx) ctx k (.type t) args w) = .ok (some v) ∧
    Run.outcome (e.general s (.type t) args w) = .error (.error (.runtime (.initReturned
      ((Run.world (e.general s (.type t) args w)).heap.typeName x))))

theorem agreesWithGeneral_of_recipe (hfrom : From o c₀ K) (bodies : Bodies o c₀ True e)
    {k : ShortcutRef} (hr : K.heap.recipe settings shape t = .ok r)
    (realizes : K.caches.Realizes shape.signature (K.caches.shortcutAt k) r)
    (hversion : (K.heap.typeAt t).version = (K.caches.shortcutAt k).version)
    (hargs : args.length = shape.signature.arity)
    (hlaid : shape.signature.layOut K.heap.typeName args = .ok laid) (hdepth : e.depth ≠ 0)
    (settles : Settles (e.runAllocation (e.callRelay ctx) (K.caches.shortcutAt k).allocate t args) t
      K.world)
    (fits : (Run.world (e.tryShortcut (e.callRelay ctx) ctx k (.type t) args K.world)).heap.Fits) :
    e.AgreesWithGeneral ctx k shape.signature t args K.world := by
  have alike : Alike o c₀ K K := ⟨hfrom, hfrom, rfl, rfl⟩
  have same : Run.seen (e.tryShortcut (e.callRelay ctx) ctx k (.type t) args K.world) = _ :=
    tryShortcut_agrees ctx bodies trivial alike realizes hversion hargs (Or.inl fits)
  rw [Run.seen_map] at same
  have hout := congrArg (·.1) same
  have hheap := congrArg (·.2.1) same
  have htrace := congrArg (·.2.2) same
  dsimp only [Run.seen] at hout hheap htrace
  rw [hheap] at fits
  have hiff := initReturns_iff ctx hfrom bodies realizes hargs fits
  have settles : Settles (e.makeObject shape.signature r.maker t args) t K.world := by
    intro v w₁ hmade
    have hmake := seen_runAllocation ctx hfrom bodies realizes.maker hargs fits
    obtain ⟨w₁', hmade', heap, -⟩ := Run.eq_ok_of_seen hmake.symm hmade
    rw [heap]
    exact settles v w₁' hmade'
  obtain ⟨d, hd⟩ := Nat.exists_eq_succ_of_ne_zero hdepth
  rcases runRecipe_general hfrom bodies hr hlaid hd settles fits with
    ⟨hseen, hnone⟩ | ⟨v, x, w₂, hgives, hx, hrun, hgeneral⟩
  · have hout' := congrArg (·.1) hseen
    have hheap' := congrArg (·.2.1) hseen
    have htrace' := congrArg (·.2.2) hseen
    dsimp only [Run.seen] at hout' hheap' htrace'
    refine ⟨hheap.trans hheap', htrace.trans htrace', fun _ => by rw [hout, hout'], ?_⟩
    intro v x hreturns hx
    exact absurd (hnone v x ((hiff v x).mp hreturns)) hx
  · rw [hrun] at hout hheap htrace
    refine ⟨?_, ?_, ?_, ?_⟩
    · rw [hheap, hgeneral]
      rfl
    · rw [htrace, hgeneral]
      rfl
    · intro hnone
      exact absurd (hnone v x ((hiff v x).mpr hgives)) hx
    · intro v' x' hreturns _
      obtain ⟨rfl, rfl⟩ := hgives.unique ((hiff v' x').mp hreturns)
      rw [hout, hgeneral]
      exact ⟨rfl, rfl⟩

/-! ## Main theorem -/

/-- The fast path agrees with the general protocol. A request at any point of a history gives a
shortcut `k` for a type, and a call of the type has as many arguments as its call site checks for
and lays them out. Bodies act on the heap, whatever is cached. Let what makes the object leave the
attributes of types alone, and let the object be plain data, an instance of the type itself, or one
of an unrelated type with another layout. Then the shortcut and the general protocol enter the same
bodies in the same order with the same arguments and leave the same heap. They end with the same
value or the same error, with one exception: where `__init__` ran and gave something back, the
shortcut gives the object and the general protocol an error. -/
theorem fast_path_agrees {o : Usage} {e : Engine} {H : History} {ctx : SpecializerRef}
    {shape : SiteShape} {t : TypeRef} {k : ShortcutRef} {c : Caches} {args : List Value}
    {laid : CallArgs} (hr : Reachable o H) (has : H.caches.HasSpecializer ctx)
    (given : Caches.request H.heap ctx shape t H.caches = .ok (.ok k) c)
    (hargs : args.length = shape.signature.arity)
    (hlaid : shape.signature.layOut H.heap.typeName args = .ok laid) (hdepth : e.depth ≠ 0)
    (bodies : Bodies o c True e)
    (settles : Settles (e.runAllocation (e.callRelay ctx) (c.shortcutAt k).allocate t args) t
      (H.withCaches c).world)
    (fits : (Run.world (e.tryShortcut (e.callRelay ctx) ctx k (.type t) args
      (H.withCaches c).world)).heap.Fits) :
    e.AgreesWithGeneral ctx k shape.signature t args (H.withCaches c).world := by
  obtain ⟨K, run, hK⟩ : Lands o H (H.withCaches c).world := by
    have step := (Step.request (o := o) ctx shape t has).lands
    unfold History.afterRequest at step
    rw [given] at step
    exact step
  have hcaches : K.caches = c := congrArg World.caches hK
  have hheap : K.heap = (H.withCaches c).heap := congrArg World.heap hK
  change K.heap = H.heap at hheap
  have hfrom : From o c K := ⟨hr.trans run, hcaches ▸ .refl _⟩
  rw [← hK] at settles fits ⊢
  have hlands := tryShortcut_moves bodies (relayWithin_moves bodies ctx e.depth) ctx k (.type t)
    args K hfrom
  have before := hlands.fits hfrom.reachable fits
  rw [hheap] at before
  obtain ⟨hversion, r, hrecipe, realizes⟩ := hr.granted before has given
  rw [← hcaches] at hversion realizes settles
  rw [← hheap] at hversion hrecipe hlaid
  exact agreesWithGeneral_of_recipe hfrom bodies hrecipe realizes hversion hargs hlaid hdepth
    settles fits

theorem sample_fast_path : ∃ c,
    Caches.request sample.heap .shared sampleGrant.shape ⟨1⟩ sample.caches = .ok (.ok ⟨0⟩) c ∧
    (constant (.int 7)).AgreesWithGeneral .shared ⟨0⟩ (.plain 0) ⟨1⟩ []
      (sample.withCaches c).world := by
  let e := constant (.int 7)
  let c := sample.caches.count .shared .cacheReuses
  have given : Caches.request sample.heap .shared sampleGrant.shape ⟨1⟩ sample.caches =
      .ok (.ok ⟨0⟩) c := by
    unfold c
    cbv
  have hlaid : Signature.layOut (.plain 0) sample.heap.typeName [] = .ok {} := rfl
  have settles : Settles (e.runAllocation (e.callRelay .shared) (c.shortcutAt ⟨0⟩).allocate
      ⟨1⟩ []) ⟨1⟩ (sample.withCaches c).world := by
    intro v w₁ hmade
    have hobject : e.runAllocation (e.callRelay .shared) (c.shortcutAt ⟨0⟩).allocate ⟨1⟩ []
        (sample.withCaches c).world = .ok (.object ⟨0⟩)
          ((sample.withCaches c).withHeap (sample.heap.addObject ⟨1⟩ .object).2).world := by
      unfold e c
      cbv
    rw [hobject] at hmade
    cases hmade
    exact ⟨.own (by decide +kernel) (by decide +kernel), fun _ _ => rfl⟩
  exact ⟨c, given, fast_path_agrees (o := fun _ _ => True) (sample_reachable trivial)
    (by decide +kernel) given rfl hlaid (by decide) (constant_bodies _) settles
    (by decide +kernel)⟩

end InlineCache.Engine
