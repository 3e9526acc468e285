import InlineCache.Proofs.Service

/-! # Caching is transparent

Whatever is cached, a call through a call site ends like the same call with nothing cached. -/

namespace InlineCache

theorem History.Agree.map {ε α β : Type} {x y : Run ε α} {w w' : World} (a : Agree (x w) (y w'))
    (f : α → β) : Agree ((f <$> x) w) ((f <$> y) w') := by
  rw [← bind_pure_comp, ← bind_pure_comp, Run.bind_apply, Run.bind_apply]
  intro fits
  cases hx : x w <;> cases hy : y w' <;> simp_all [Agree]

namespace Engine

open History

variable {o : Usage} {c₀ : Caches} {B : Prop} {e : Engine} {H H' K : History} {ctx : SpecializerRef}
  {site : CallSiteRef} {callee : Value} {args : List Value}

/-! ## Shortcuts -/

theorem callRelay_agrees (bodies : Bodies o c₀ B e) (b : B) (alike : Alike o c₀ H H')
    {r : RelayRef} {f : FunctionRef} {s : Signature} (calls : H.caches.RelaysTo r f s.withReceiver)
    (v : Value) (hargs : args.length = s.arity) :
    Agree (e.callRelay ctx r v args H.world) (e.relayed f s v args H'.world) :=
  (callRelay_ends alike.left.reachable calls v hargs).agree (relayed_steady bodies f s v args) b
    alike

theorem runAllocation_agrees (bodies : Bodies o c₀ B e) (b : B) (alike : Alike o c₀ H H')
    {s : Signature} {a : Allocation} {m : Maker} (makes : H.caches.Makes s.withReceiver a m)
    (t : TypeRef) (hargs : args.length = s.arity) :
    Agree (e.runAllocation (e.callRelay ctx) a t args H.world)
      (e.makeObject s m t args H'.world) := by
  cases makes with
  | native l =>
    exact (nativeAllocation_steady bodies (fun _ _ _ => throw .exhausted) l t args).agrees b _ _
      alike
  | relay calls => exact callRelay_agrees bodies b alike calls _ hargs

theorem runInitializer_agrees (bodies : Bodies o c₀ B e) (b : B) (alike : Alike o c₀ H H')
    {s : Signature} {i : Option RelayRef} {f : Option FunctionRef}
    (initializes : H.caches.Initializes s.withReceiver i f) (t : TypeRef) (v : Value)
    (hargs : args.length = s.arity) :
    Agree (runInitializer (e.callRelay ctx) i t v args H.world)
      (e.finishObject s f t v args H'.world) := by
  cases initializes with
  | none => exact (steady_pure v).agrees b H H' alike
  | @some r f calls =>
    unfold runInitializer finishObject
    have heap : H'.world.heap = H.world.heap := alike.heap.symm
    dsimp only
    rw [heap_bind, heap_bind, heap]
    split
    · apply agree_bind alike
      · exact relayWithin_moves bodies ctx e.depth r v args H alike.left
      · exact (relayed_steady bodies f s v args).moves H' alike.right
      · exact callRelay_agrees bodies b alike calls v hargs
      · exact fun _ K _ _ => .here o K
      · exact fun _ K _ _ => .here o K
      · exact fun _ K K' alike _ _ _ _ => (steady_pure v).agrees b K K' alike
    · exact (steady_pure v).agrees b H H' alike

variable (ctx) in
theorem runShortcut_agrees (bodies : Bodies o c₀ B e) (b : B) (alike : Alike o c₀ H H')
    {s : Signature} {k : Shortcut} {r : Recipe} (realizes : H.caches.Realizes s k r) (t : TypeRef)
    (hargs : args.length = s.arity) :
    Agree (e.runShortcut (e.callRelay ctx) k t args H.world) (e.runRecipe s r t args H'.world) := by
  have hrelay := relayWithin_moves bodies ctx e.depth
  unfold runShortcut runRecipe
  apply agree_bind alike
  · exact runAllocation_moves bodies hrelay _ t args H alike.left
  · exact (makeObject_steady bodies s _ t args).moves H' alike.right
  · exact runAllocation_agrees bodies b alike realizes.maker t hargs
  · exact fun v K run _ => runInitializer_moves hrelay _ t v args K (alike.left.trans run)
  · exact fun v K run _ =>
      (finishObject_steady bodies s _ t v args).moves K (alike.right.trans run)
  · intro v K K' alike' run _ _ _
    have grows := (alike.left.reachable.grows run).caches
    exact runInitializer_agrees bodies b alike' (realizes.initializer.mono grows) t v hargs

variable (ctx) in
theorem tryShortcut_agrees (bodies : Bodies o c₀ B e) (b : B) (alike : Alike o c₀ H H')
    {s : Signature} {k : ShortcutRef} {r : Recipe} {t : TypeRef}
    (realizes : H.caches.Realizes s (H.caches.shortcutAt k) r)
    (hversion : (H.heap.typeAt t).version = (H.caches.shortcutAt k).version)
    (hargs : args.length = s.arity) :
    Agree (e.tryShortcut (e.callRelay ctx) ctx k (.type t) args H.world)
      ((some <$> e.runRecipe s r t args) H'.world) := by
  have hmatch : matches? H.world (H.caches.shortcutAt k) (.type t) args.length = some t :=
    if_pos ⟨hversion, hargs.trans realizes.arity.symm⟩
  unfold tryShortcut
  rw [get_bind, hmatch]
  dsimp only
  rw [count_bind]
  have alike' := alike.after (.single (.count ctx .fastHits)) rfl rfl
  have hk := runShortcut_agrees ctx bodies b alike'
    (realizes.mono (Caches.count_prepares H.caches ctx .fastHits).grows) t hargs
  exact hk.map some

theorem CutsAs.agree {s : Signature} {r : Recipe} {t : TypeRef}
    {res : EStateM.Result (Stop CallError) World Value} (cuts : e.CutsAs ctx s r t args o H res)
    (bodies : Bodies o c₀ B e) (b : B) (alike : Alike o c₀ H H') (hargs : args.length = s.arity) :
    Agree res (e.runRecipe s r t args H'.world) := by
  obtain ⟨K, k, unseen, realizes, same⟩ := cuts
  have alike' := alike.after unseen.run unseen.heap unseen.trace
  exact .of_seen same (runShortcut_agrees ctx bodies b alike' realizes t hargs)

/-! ## Calls -/

section

variable {settings : Settings} {shape : SiteShape} {t : TypeRef} {w : World}

theorem uncached_of_recipe {r : Recipe} (hargs : args.length = shape.signature.arity)
    (hr : w.heap.recipe settings shape t = .ok r) :
    e.uncached settings shape (.type t) args w = e.runRecipe shape.signature r t args w := by
  rw [uncached_type hargs, Run.bind_apply, cutShort_of_recipe hr, ← Run.bind_apply]
  exact some_map_bind _ (fun _ => rfl) _

theorem uncached_of_refusal {reason : Refusal} (hargs : args.length = shape.signature.arity)
    (hr : w.heap.recipe settings shape t = .error (.refusal reason)) :
    e.uncached settings shape (.type t) args w = e.general shape.signature (.type t) args w := by
  rw [uncached_type hargs, Run.bind_apply, cutShort_of_refusal hr]

end

section

variable (bodies : Bodies o c₀ B e) (b : B) (alike : Alike o c₀ H H')
  (has : H.caches.HasSpecializer ctx) (hsite : H.caches.HasSite site) (use : o site ctx)

include bodies b alike has hsite use

theorem invoke_type_agrees (fits : H.heap.Fits) (only : ∀ s, o site s → s = ctx) (t : TypeRef)
    (hargs : args.length = (H.caches.siteAt site).shape.signature.arity) :
    Agree (e.invoke ctx site (.type t) args H.world)
      (e.uncached (H.caches.settings ctx) (H.caches.siteAt site).shape (.type t) args
        H'.world) := by
  have hr := alike.left.reachable
  by_cases cut : H.world.CutsShort ctx site t args.length
  · -- Whoever granted the shortcut has the settings of the context.
    obtain ⟨s, r, granted, hrecipe, cuts⟩ := invoke_cuts (e := e) hr fits hargs has hsite use
      cut
    obtain rfl := only s granted
    rw [alike.heap] at hrecipe
    rw [uncached_of_recipe hargs hrecipe]
    exact cuts.agree bodies b alike hargs
  · obtain ⟨reason, hrefusal⟩ := World.refusal_of_not_cutsShort cut
    have hrefusal : H.heap.recipe _ _ _ = _ := hrefusal
    rw [alike.heap] at hrefusal
    rw [uncached_of_refusal hargs hrefusal]
    exact (invoke_ends hr fits hargs has cut).agree (general_steady bodies _ _ args) b alike

/-- A call through a call site ends like the same call with nothing cached. -/
theorem invoke_agrees_uncached (only : ∀ s, o site s → s = ctx) (callee : Value)
    (args : List Value) :
    Agree (e.invoke ctx site callee args H.world)
      (e.uncached (H.caches.settings ctx) (H.caches.siteAt site).shape callee args H'.world) := by
  have hlands := invoke_lands bodies alike.left has hsite use callee args
  have hlands' := (uncached_steady bodies (H.caches.settings ctx) (H.caches.siteAt site).shape
    callee args).moves H' alike.right
  refine alike.agree_of_fits hlands hlands' fun fits => ?_
  by_cases hargs : args.length = (H.caches.siteAt site).shape.signature.arity
  · by_cases hcallee : ∃ t, callee = .type t
    · obtain ⟨t, rfl⟩ := hcallee
      exact invoke_type_agrees bodies b alike has hsite use fits only t hargs
    · have hcallee : ∀ t, callee ≠ .type t := fun t h => hcallee ⟨t, h⟩
      rw [uncached_of_not_type hargs hcallee]
      exact (invokeWith_ends_of_not_type hcallee hargs alike.left.reachable).agree
        (general_steady bodies _ callee args) b alike
  · unfold invoke
    rw [invokeWith_of_ne e _ ctx _ hargs, uncached_of_ne hargs]
    exact (steady_fail _).agrees b H H' alike

end

/-- Calls through call sites are as steady as bodies are, so bodies may make them. -/
theorem invoke_steady (bodies : Bodies o c₀ B e) (has : c₀.HasSpecializer ctx)
    (hsite : c₀.HasSite site) (use : o site ctx) (only : B → ∀ s, o site s → s = ctx)
    (callee : Value) (args : List Value) : Steady o c₀ B (e.invoke ctx site callee args) := by
  refine ⟨fun H hfrom => ?_, fun b H H' alike => ?_⟩
  · exact invoke_lands bodies hfrom (lt_of_lt_of_le has hfrom.grows.specializers)
      (lt_of_lt_of_le hsite hfrom.grows.sites) use callee args
  · have left := alike.left.grows
    have right := alike.right.grows
    have agree := invoke_agrees_uncached bodies b alike (lt_of_lt_of_le has left.specializers)
      (lt_of_lt_of_le hsite left.sites) use (only b) callee args
    have agree' := invoke_agrees_uncached bodies b alike.symm
      (lt_of_lt_of_le has right.specializers) (lt_of_lt_of_le hsite right.sites) use (only b)
      callee args
    rw [left.settings ctx has, left.shape site hsite] at agree
    rw [right.settings ctx has, right.shape site hsite] at agree'
    have uncached := (uncached_steady bodies (c₀.settings ctx) (c₀.siteAt site).shape callee
      args).agrees b H H' alike
    exact (agree.trans uncached.symm).trans agree'.symm

end Engine

namespace Caches

def nextSpecializer (c : Caches) : SpecializerRef := ⟨c.specializers.size⟩

def nextSite (c : Caches) : CallSiteRef := ⟨c.sites.size⟩

/-- Adds a specializer with the settings of another one, and a call site of the shape of another
one. Neither has anything cached. -/
def startAfresh (c : Caches) (ctx : SpecializerRef) (site : CallSiteRef) : Caches :=
  let p := c.specializerAt ctx
  ((c.addSpecializer (.fresh p.settings p.valid)).2.addSite (c.siteAt site).shape).2

theorem settings_startAfresh (c : Caches) (ctx : SpecializerRef) (site : CallSiteRef) :
    (c.startAfresh ctx site).settings c.nextSpecializer = c.settings ctx := by
  have hat := specializerAt_addSpecializer c (.fresh _ (c.specializerAt ctx).valid)
    c.nextSpecializer
  unfold nextSpecializer at hat ⊢
  rw [if_pos rfl] at hat
  have hsettings := congrArg Specializer.settings hat
  exact hsettings

theorem shape_startAfresh (c : Caches) (ctx : SpecializerRef) (site : CallSiteRef) :
    ((c.startAfresh ctx site).siteAt c.nextSite).shape = (c.siteAt site).shape := by
  let added := (c.addSpecializer (.fresh _ (c.specializerAt ctx).valid)).2
  have hat := siteAt_addSite added (c.siteAt site).shape ⟨added.sites.size⟩
  rw [if_pos rfl] at hat
  have hshape := congrArg CallSite.shape hat
  exact hshape

end Caches

namespace Engine

open History

/-! ## Main theorem -/

theorem startAfresh_reaches (o : Usage) (H : History) (ctx : SpecializerRef) (site : CallSiteRef) :
    Reaches o H (H.withCaches (H.caches.startAfresh ctx site)) :=
  (Relation.ReflTransGen.single (.addSpecializer _ (H.caches.specializerAt ctx).valid)).tail
    (.addSite (H.caches.siteAt site).shape)

/-- Caching is transparent. Let a call site be used with one specializer only. Whatever happened
before, a call through it ends as the same call through a new call site of the same shape, in the
context of a new specializer with the same settings: with the same value or error, the same heap and
the same bodies entered with the same arguments. -/
theorem invoke_transparent {o : Usage} {e : Engine} {H : History} {ctx : SpecializerRef}
    {site : CallSiteRef} (hr : Reachable o H) (has : H.caches.HasSpecializer ctx)
    (hsite : H.caches.HasSite site) (only : ∀ s, o site s ↔ s = ctx)
    (fresh : ∀ s, o H.caches.nextSite s ↔ s = H.caches.nextSpecializer)
    (bodies : Bodies o H.caches True e) (callee : Value) (args : List Value)
    (fits : (Run.world (e.invoke ctx site callee args H.world)).heap.Fits) :
    Run.seen (e.invoke ctx site callee args H.world) =
      Run.seen (e.invoke H.caches.nextSpecializer H.caches.nextSite callee args
        (H.withCaches (H.caches.startAfresh ctx site)).world) := by
  have run := startAfresh_reaches o H ctx site
  have start : From o H.caches H := ⟨hr, .refl _⟩
  have alike : Alike o H.caches H H := ⟨start, start, rfl, rfl⟩
  have agree := invoke_agrees_uncached bodies trivial alike has hsite ((only ctx).mpr rfl)
    (fun s => (only s).mp) callee args
  have has' : (H.withCaches (H.caches.startAfresh ctx site)).caches.HasSpecializer
      H.caches.nextSpecializer := by
    change H.caches.specializers.size < (H.caches.specializers.push _).size
    simp
  have hsite' : (H.withCaches (H.caches.startAfresh ctx site)).caches.HasSite
      H.caches.nextSite := by
    change H.caches.sites.size < (H.caches.sites.push _).size
    simp
  have agree' := invoke_agrees_uncached bodies trivial (alike.after run rfl rfl) has' hsite'
    ((fresh _).mpr rfl) (fun s => (fresh s).mp) callee args
  change Agree _ (e.uncached ((H.caches.startAfresh ctx site).settings _)
    ((H.caches.startAfresh ctx site).siteAt _).shape callee args _) at agree'
  rw [Caches.settings_startAfresh, Caches.shape_startAfresh] at agree'
  exact agree.trans agree'.symm (Or.inl fits)

theorem sample_invoke_transparent :
    Run.seen ((constant .none).invoke .shared ⟨0⟩ (.type ⟨1⟩) [] sample.world) =
      Run.seen ((constant .none).invoke sample.caches.nextSpecializer sample.caches.nextSite
        (.type ⟨1⟩) [] (sample.withCaches (sample.caches.startAfresh .shared ⟨0⟩)).world) := by
  have only : ∀ (i : Nat) (s : SpecializerRef), i = s.index ↔ s = ⟨i⟩ := by
    rintro i ⟨j⟩
    simp [eq_comm]
  have hsite : sample.caches.nextSite.index = sample.caches.nextSpecializer.index := by
    decide +kernel
  apply invoke_transparent (o := fun site s => site.index = s.index) (sample_reachable rfl)
  · decide +kernel
  · decide +kernel
  · exact only 0
  · intro s
    rw [hsite]
    exact only _ s
  · exact constant_bodies _
  · decide +kernel

end Engine

end InlineCache
