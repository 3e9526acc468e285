import InlineCache.Proofs.Accounts
import InlineCache.Proofs.ArityCap
import InlineCache.Proofs.Callees
import InlineCache.Proofs.Programs

/-! # The story of a run

A story says which shortcuts a run asks for and which calls through call sites it makes, in order,
those that bodies make included. Every run has one, however it ends, as long as its bodies do. -/

namespace InlineCache

/-! ## What a request counts -/

namespace Caches

variable {c c₁ c₂ c₃ : Caches} {h : Heap} {s : SpecializerRef}

theorem specializerAt_congr {c c' : Caches} (same : c'.specializers = c.specializers)
    (s : SpecializerRef) : c'.specializerAt s = c.specializerAt s := by
  rw [specializerAt, specializerAt, same]

theorem settings_count (c : Caches) (s p : SpecializerRef) (n : Counter) :
    (c.count s n).settings p = c.settings p := by
  unfold settings count
  rw [specializerAt_modifySpecializer]
  split <;> rfl

/-- No specializer but this one changes, and of what it counts only relays and allocators do. -/
structure Working (s : SpecializerRef) (c c' : Caches) : Prop where
  size : c'.specializers.size = c.specializers.size
  settings : c'.settings s = c.settings s
  other : ∀ p ≠ s, c'.specializerAt p = c.specializerAt p
  counters : ∃ allocatorBuilds adapterBuilds,
    c'.counters s = { c.counters s with allocatorBuilds, adapterBuilds }

theorem Working.refl (s : SpecializerRef) (c : Caches) : Working s c c :=
  ⟨rfl, rfl, fun _ _ => rfl, _, _, rfl⟩

theorem Working.trans (a : Working s c₁ c₂) (b : Working s c₂ c₃) : Working s c₁ c₃ := by
  obtain ⟨_, _, h₁₂⟩ := a.counters
  obtain ⟨_, _, h₂₃⟩ := b.counters
  refine ⟨b.size.trans a.size, b.settings.trans a.settings, ?_, _, _, by rw [h₂₃, h₁₂]⟩
  exact fun p hp => (b.other p hp).trans (a.other p hp)

theorem Working.of_specializers {c c' : Caches} (same : c'.specializers = c.specializers) :
    Working s c c' := by
  have hat := specializerAt_congr same
  exact ⟨by rw [same], congrArg Specializer.settings (hat s), fun p _ => hat p, _, _,
    congrArg Specializer.counters (hat s)⟩

theorem Working.has {c c' : Caches} (working : Working s c c') {p : SpecializerRef}
    (has : c.HasSpecializer p) : c'.HasSpecializer p := has.trans_eq working.size.symm

theorem modifySpecializer_working {f : Specializer → Specializer}
    (hsettings : ∀ p, (f p).settings = p.settings)
    (hcounters : ∀ p, ∃ allocatorBuilds adapterBuilds,
      (f p).counters = { p.counters with allocatorBuilds, adapterBuilds }) :
    Working s c (c.modifySpecializer s f) := by
  refine ⟨Array.size_modify, ?_, fun p hp => ?_, ?_⟩
  · unfold settings
    rw [specializerAt_modifySpecializer]
    split
    · exact hsettings _
    · rfl
  · rw [specializerAt_modifySpecializer, if_neg fun both => hp both.1.symm]
  · unfold counters
    rw [specializerAt_modifySpecializer]
    split
    · exact hcounters _
    · exact ⟨_, _, rfl⟩

theorem count_working {n : Counter} (hn : n = .allocatorBuilds ∨ n = .adapterBuilds) :
    Working s c (c.count s n) := by
  apply modifySpecializer_working
  · exact fun _ => rfl
  · rcases hn with rfl | rfl <;> exact fun _ => ⟨_, _, rfl⟩

theorem openShelf_working (c : Caches) (s : SpecializerRef) (l : LayoutId) :
    Working s c (c.openShelf s l) := by
  apply modifySpecializer_working
  · intro p
    split <;> rfl
  · intro p
    split <;> exact ⟨_, _, rfl⟩

theorem file_working (c : Caches) (s : SpecializerRef) (l : LayoutId) (key : ShortcutKey)
    (k : Shortcut) : Working s c (c.file s l key k).2 := by
  have added : Working s c (c.addShortcut k).2 := .of_specializers rfl
  exact added.trans (modifySpecializer_working (fun _ => rfl) fun _ => ⟨_, _, rfl⟩)

theorem sweep_working (c : Caches) (s : SpecializerRef) (extra : List RelayRef) :
    Working s c (c.sweep s extra) := by
  unfold sweep
  dsimp only
  split
  · exact .refl s c
  · exact modifySpecializer_working (fun _ => rfl) fun _ => ⟨_, _, rfl⟩

theorem relayFor_working (c : Caches) (s : SpecializerRef) (f : FunctionRef) (shape : SiteShape)
    (extra : List RelayRef) : Working s c (c.relayFor s f shape extra).2 := by
  unfold relayFor
  dsimp only
  split
  · exact .refl s c
  · have added : Working s c (c.addRelay { callable := .function f, shape }).2 :=
      .of_specializers rfl
    have counted := added.trans (count_working (Or.inr rfl))
    refine (counted.trans ?_).trans (sweep_working _ s _)
    exact modifySpecializer_working (fun _ => rfl) fun _ => ⟨_, _, rfl⟩

theorem allocatorFor_working (c : Caches) (h : Heap) (s : SpecializerRef) (l : LayoutRef) :
    Working s c (c.allocatorFor h s l).2 := by
  unfold allocatorFor
  dsimp only
  split
  · exact .refl s c
  · have counted : Working s c (if (Specializer.directAllocator h l).isSome then
        c.count s .allocatorBuilds else c) := by
      split
      · exact count_working (Or.inl rfl)
      · exact .refl s c
    refine counted.trans ?_
    exact modifySpecializer_working (fun _ => rfl) fun _ => ⟨_, _, rfl⟩

theorem initializerFor_working (h : Heap) (s : SpecializerRef) (shape : SiteShape) (t : TypeRef)
    (c : Caches) : Working s c (final (initializerFor h s shape t c)) := by
  rw [initializerFor_eq]
  split
  · exact .refl s c
  · exact .refl s c
  · exact relayFor_working c s _ _ _

theorem allocationFor_working (h : Heap) (s : SpecializerRef) (shape : SiteShape) (t : TypeRef)
    (initializer : Option RelayRef) (c : Caches) :
    Working s c (final (allocationFor h s shape t initializer c)) := by
  rw [allocationFor_eq]
  split
  · have working := allocatorFor_working c h s (h.typeAt t).layout
    split <;> rename_i heq <;> rwa [heq] at working
  · exact relayFor_working c s _ _ _
  · exact .refl s c

theorem initializerFor_refuses {shape : SiteShape} {t : TypeRef} {o : Obstacle} {c' : Caches}
    (hi : initializerFor h s shape t c = .error o c') : ∃ reason, o = .refusal reason := by
  rw [initializerFor_eq] at hi
  split at hi <;> cases hi
  exact ⟨_, rfl⟩

theorem allocationFor_refuses {shape : SiteShape} {t : TypeRef} {i : Option RelayRef}
    {o : Obstacle} {c' : Caches} (ha : allocationFor h s shape t i c = .error o c') :
    ∃ reason, o = .refusal reason := by
  rw [allocationFor_eq] at ha
  split at ha
  · split at ha <;> cases ha
    exact ⟨_, rfl⟩
  · cases ha
  · cases ha
    exact ⟨_, rfl⟩

theorem build_working (h : Heap) (s : SpecializerRef) {shape : SiteShape} (t : TypeRef)
    (c : Caches) (harity : shape.signature.arity ≤ arityLimit) :
    (∃ k c', build h s shape t c = .ok k (c'.count s .siteBuilds) ∧ Working s c c') ∨
      ∃ reason c', build h s shape t c = .error (.refusal reason) c' ∧ Working s c c' := by
  rw [build_eq]
  unfold Arity.ofNat
  rw [dif_pos harity]
  dsimp only
  have first := initializerFor_working h s shape t c
  cases hi : initializerFor h s shape t c with
  | error o c₁ =>
    rw [hi] at first
    obtain ⟨reason, rfl⟩ := initializerFor_refuses hi
    exact Or.inr ⟨reason, c₁, rfl, first⟩
  | ok i c₁ =>
    rw [hi] at first
    have second := allocationFor_working h s shape t i c₁
    dsimp only
    cases ha : allocationFor h s shape t i c₁ with
    | error o c₂ =>
      rw [ha] at second
      obtain ⟨reason, rfl⟩ := allocationFor_refuses ha
      exact Or.inr ⟨reason, c₂, rfl, first.trans second⟩
    | ok a c₂ =>
      rw [ha] at second
      exact Or.inl ⟨_, c₂, rfl, first.trans second⟩

/-- Exactly one thing is counted, besides relays and allocators. -/
structure CountsOnce (s : SpecializerRef) (n : Counter) (c c' : Caches) : Prop where
  size : c'.specializers.size = c.specializers.size
  settings : c'.settings s = c.settings s
  other : ∀ p ≠ s, c'.specializerAt p = c.specializerAt p
  counters : ∃ allocatorBuilds adapterBuilds,
    c'.counters s = { (c.counters s).record n with allocatorBuilds, adapterBuilds }

theorem Working.countsOnce {n : Counter} (a : Working s c₁ c₂) (has : c₁.HasSpecializer s)
    (b : Working s (c₂.count s n) c₃) : CountsOnce s n c₁ c₃ := by
  have counted : (c₂.count s n).counters s = (c₂.counters s).record n := by
    rw [counters_record, if_pos ⟨rfl, a.has has⟩]
  refine ⟨b.size.trans (Array.size_modify.trans a.size),
    b.settings.trans ((settings_count c₂ s s n).trans a.settings), fun p hp => ?_, ?_⟩
  · rw [b.other p hp, count, specializerAt_modifySpecializer, if_neg fun both => hp both.1.symm,
      a.other p hp]
  · obtain ⟨i, j, h₁₂⟩ := a.counters
    obtain ⟨i', j', h₂₃⟩ := b.counters
    refine ⟨i', j', ?_⟩
    rw [h₂₃, counted, h₁₂]
    cases n <;> rfl

/-- Every request is answered, and counted once: as a build, a reuse or a refusal. A specializer
that is disabled refuses. -/
theorem request_counts (has : c.HasSpecializer s) (h : Heap) (shape : SiteShape) (t : TypeRef) :
    ∃ answer c' n, request h s shape t c = .ok answer c' ∧ CountsOnce s n c c' ∧
      (n = .ineligible ∨
        (c.settings s).enabled = true ∧ (n = .siteBuilds ∨ n = .cacheReuses)) ∧
      ((c.settings s).enabled = false → (∃ reason, answer = .error reason) ∧
        c' = c.count s .ineligible) := by
  unfold request
  cases hgate : gate (c.settings s) h shape t with
  | some reason =>
    exact ⟨_, _, .ineligible, rfl, (Working.refl s c).countsOnce has (.refl s _),
      Or.inl rfl, fun _ => ⟨⟨reason, rfl⟩, rfl⟩⟩
  | none =>
    obtain ⟨enabled, -, -, -, hcap, -⟩ := Heap.gate_eq_none_iff.mp hgate
    have harity : shape.signature.arity ≤ arityLimit := hcap.trans (c.specializerAt s).valid
    have opened := openShelf_working c s (h.layoutOf t).id
    have never : (c.settings s).enabled = false → ∀ {P : Prop}, P := fun disabled => by
      simp [disabled] at enabled
    dsimp only
    split
    · exact ⟨_, _, .cacheReuses, rfl, opened.countsOnce has (.refl s _),
        Or.inr ⟨enabled, Or.inr rfl⟩, fun disabled => never disabled⟩
    · rcases build_working h s t (c.openShelf s (h.layoutOf t).id) harity with
        ⟨k, c', hb, working⟩ | ⟨reason, c', hb, working⟩
      · simp only [hb]
        exact ⟨_, _, .siteBuilds, rfl,
          (opened.trans working).countsOnce has (file_working _ s _ _ k),
          Or.inr ⟨enabled, Or.inl rfl⟩, fun disabled => never disabled⟩
      · simp only [hb]
        exact ⟨_, _, .ineligible, rfl,
          (opened.trans working).countsOnce has (.refl s _), Or.inl rfl,
          fun disabled => never disabled⟩

end Caches

namespace World

def counted (w : World) (s : SpecializerRef) (n : Counter) : World :=
  { w with caches := w.caches.count s n }

def requested (w : World) (s : SpecializerRef) (shape : SiteShape) (t : TypeRef) : World :=
  { w with caches := Caches.final (Caches.request w.heap s shape t w.caches) }

/-- The call has the right number of arguments, and its callee is no function. -/
structure Dispatches (w : World) (site : CallSiteRef) (callee : Value) (args : List Value) :
    Prop where
  arguments : args.length = (w.caches.siteAt site).shape.signature.arity
  callee : ∀ f, callee ≠ .function f

end World

/-- How a call is served, and what is counted for it. -/
inductive Engine.Way (e : Engine) (depth : Nat) (ctx : SpecializerRef) (enabled : Bool)
    (s : Signature) (callee : Value) (args : List Value) : Counter → Run CallError Value → Prop
  | hit (on : enabled = true) (k : Shortcut) {t : TypeRef} (type : callee = .type t) :
      Way e depth ctx enabled s callee args .fastHits
        (e.runShortcut (e.relayWithin ctx depth) k t args)
  | fallback : Way e depth ctx enabled s callee args .fallbacks (e.general s callee args)

/-! ## Stories -/

/-- What a specializer is asked for. -/
inductive Event where
  /-- A shortcut, be it for a call site or not. -/
  | request (s : SpecializerRef)
  /-- A call through a call site, with the right number of arguments and not of a function. -/
  | call (ctx : SpecializerRef)
deriving DecidableEq

open Engine

/-- A run leads from world to world, and this is asked for on the way, in order. -/
inductive Story : World → List Event → World → Prop
  /-- No specializer is touched. -/
  | aside {w w' : World} (same : w'.caches.specializers = w.caches.specializers) : Story w [] w'
  | addSpecializer (w : World) (settings : Settings) (valid : settings.Valid) :
      Story w [] { w with caches := (w.caches.addSpecializer (.fresh settings valid)).2 }
  | miss (w : World) (ctx : SpecializerRef) : Story w [] (w.counted ctx .misses)
  /-- A call of a function at a call site that has a shortcut, in a context that is disabled. -/
  | bypass (w : World) (ctx : SpecializerRef) (off : (w.caches.settings ctx).enabled = false) :
      Story w [] (w.counted ctx .fallbacks)
  | request (w : World) {s : SpecializerRef} (has : w.caches.HasSpecializer s) (shape : SiteShape)
      (t : TypeRef) : Story w [.request s] (w.requested s shape t)
  /-- The call site may ask for a shortcut. Then the call is counted, once, and served. -/
  | call {e : Engine} {depth : Nat} {ctx : SpecializerRef} {site : CallSiteRef} {callee : Value}
      {args : List Value} {w w₁ : World} {asked inside : List Event} {n : Counter}
      {x : Run CallError Value} (has : w.caches.HasSpecializer ctx)
      (dispatches : w.Dispatches site callee args) (before : Story w asked w₁)
      (once : asked = [] ∨ asked = [.request ctx])
      (way : e.Way depth ctx (w.caches.settings ctx).enabled
        (w.caches.siteAt site).shape.signature callee args n x)
      (served : Story (w₁.counted ctx n) inside (Run.world (x (w₁.counted ctx n))))
      (ends : (Run.world (e.invokeWith (e.relayWithin ctx depth) ctx site callee args
        w)).caches.specializers = (Run.world (x (w₁.counted ctx n))).caches.specializers) :
      Story w (asked ++ .call ctx :: inside)
        (Run.world (e.invokeWith (e.relayWithin ctx depth) ctx site callee args w))
  | trans {w w' w'' : World} {l l' : List Event} (first : Story w l w') (next : Story w' l' w'') :
      Story w (l ++ l') w''

namespace Story

variable {w w' w'' : World} {l : List Event} {s : SpecializerRef}

theorem refl (w : World) : Story w [] w := .aside rfl

theorem after (quiet : Story w [] w') (story : Story w' l w'') : Story w l w'' := quiet.trans story

theorem before (story : Story w l w') (quiet : Story w' [] w'') : Story w l w'' := by
  have whole := story.trans quiet
  rwa [List.append_nil] at whole

theorem size_le (story : Story w l w') :
    w.caches.specializers.size ≤ w'.caches.specializers.size := by
  induction story with
  | aside same => rw [same]
  | addSpecializer => simp [Caches.addSpecializer]
  | miss | bypass => exact (Caches.count_prepares _ _ _).grows.specializers
  | request w has shape t =>
    obtain ⟨_, _, _, hreq, counts, -⟩ := Caches.request_counts has w.heap shape t
    unfold World.requested
    rw [hreq]
    exact counts.size.ge
  | call _ _ _ _ _ _ ends before served =>
    rw [ends]
    exact (before.trans (Caches.count_prepares _ _ _).grows.specializers).trans served
  | trans _ _ first next => exact first.trans next

theorem has (story : Story w l w') (has : w.caches.HasSpecializer s) :
    w'.caches.HasSpecializer s := has.trans_le story.size_le

theorem settings_kept (story : Story w l w') (has : w.caches.HasSpecializer s) :
    w'.caches.settings s = w.caches.settings s := by
  induction story with
  | aside same => exact congrArg Specializer.settings (Caches.specializerAt_congr same s)
  | addSpecializer w settings valid =>
    exact (Caches.addSpecializer_grows _ _).settings s has
  | miss w ctx | bypass w ctx => exact Caches.settings_count _ _ _ _
  | @request w p hasp shape t =>
    obtain ⟨answer, c, n, hreq, counts, -⟩ := Caches.request_counts hasp w.heap shape t
    unfold World.requested
    rw [hreq]
    by_cases hs : s = p
    · subst hs
      exact counts.settings
    · exact congrArg Specializer.settings (counts.other s hs)
  | @call _ _ ctx _ _ _ w w₁ _ _ n _ _ _ earlier _ _ _ ends before served =>
    have has₁ := earlier.has has
    have kept := Caches.settings_count w₁.caches ctx s n
    exact (congrArg Specializer.settings (Caches.specializerAt_congr ends s)).trans
      ((served (Caches.hasSpecializer_count has₁ ctx n)).trans (kept.trans (before has)))
  | trans first _ before next => exact (next (first.has has)).trans (before has)

end Story

/-! ## Runs that have a story -/

namespace Run

variable {ε α β δ : Type} {n : Nat}

/-- The run has a story wherever these specializers exist. -/
def Told (n : Nat) (x : Run ε α) : Prop :=
  ∀ w, n ≤ w.caches.specializers.size → ∃ l, Story w l (world (x w))

theorem Told.bind {x : Run ε α} {f : α → Run ε β} (hx : Told n x) (hf : ∀ a, Told n (f a)) :
    Told n (x >>= f) := by
  intro w hw
  obtain ⟨l, story⟩ := hx w hw
  rw [bind_apply]
  cases h : x w with
  | error s w' => exact ⟨l, by rwa [h] at story⟩
  | ok a w' =>
    rw [h] at story
    obtain ⟨l', rest⟩ := hf a w' (hw.trans story.size_le)
    exact ⟨_, story.trans rest⟩

theorem told_closed (n : Nat) : Closed fun x => Told n x where
  pure _ w _ := ⟨[], .refl w⟩
  throw _ w _ := ⟨[], .refl w⟩
  heap w _ := ⟨[], .refl w⟩
  onHeap _ _ _ := ⟨[], .aside rfl⟩
  bind hx hf := hx.bind hf
  mapError f hx w hw := by
    rw [History.world_mapError]
    exact hx w hw

theorem told_aside {x : Run ε α}
    (same : ∀ w, (world (x w)).caches.specializers = w.caches.specializers) : Told n x :=
  fun w _ => ⟨[], .aside (same w)⟩

theorem Told.always {x : Run ε α} (hx : Told n x) {f : World → World}
    (hf : ∀ w, (f w).caches.specializers = w.caches.specializers) : Told n (Run.always x f) := by
  intro w hw
  obtain ⟨l, story⟩ := hx w hw
  rw [Engine.world_always]
  exact ⟨l, story.before (.aside (hf _))⟩

end Run

namespace Engine

variable {e : Engine} {n depth : Nat} {ctx : SpecializerRef} {site : CallSiteRef} {callee : Value}
  {args : List Value} {w w' w₁ : World}

/-- Bodies ask for nothing but what a story can tell. -/
def Told (e : Engine) (n : Nat) : Prop := ∀ E, Run.Told n (e.run E)

theorem Told.enter (told : e.Told n) (E : Entry) : Run.Told n (e.enter E) :=
  Run.Told.bind (Run.told_aside fun _ => rfl) fun _ => told E

/-! ## Calls that are served -/

/-- The call is served in one way, once the call site has asked for a shortcut, if it does. -/
def Serves (e : Engine) (depth : Nat) (ctx : SpecializerRef) (s : Signature) (callee : Value)
    (args : List Value) (w w' : World) : Prop :=
  ∃ asked w₁ n x, Story w asked w₁ ∧ (asked = [] ∨ asked = [.request ctx]) ∧
    e.Way depth ctx (w.caches.settings ctx).enabled s callee args n x ∧
    w'.caches.specializers = (Run.world (x (w₁.counted ctx n))).caches.specializers

section

variable {s : Signature}

theorem Serves.after (quiet : Story w [] w₁)
    (kept : w₁.caches.settings ctx = w.caches.settings ctx)
    (serves : e.Serves depth ctx s callee args w₁ w') :
    e.Serves depth ctx s callee args w w' := by
  obtain ⟨asked, w₂, n, x, before, once, way, ends⟩ := serves
  exact ⟨asked, w₂, n, x, quiet.after before, once, kept ▸ way, ends⟩

theorem Serves.before {w'' : World} (serves : e.Serves depth ctx s callee args w w')
    (same : w''.caches.specializers = w'.caches.specializers) :
    e.Serves depth ctx s callee args w w'' := by
  obtain ⟨asked, w₂, n, x, before, once, way, ends⟩ := serves
  exact ⟨asked, w₂, n, x, before, once, way, same.trans ends⟩

theorem fallback_serves {asked : List Event} (before : Story w asked w₁)
    (once : asked = [] ∨ asked = [.request ctx]) :
    e.Serves depth ctx s callee args w (Run.world (e.fallback ctx s callee args w₁)) :=
  ⟨asked, w₁, .fallbacks, _, before, once, .fallback, rfl⟩

end

section

variable {relay : CallRelay} {k : ShortcutRef} {t : TypeRef}
  {f : Option Value → Run CallError Value}

theorem holding_of_match
    (hmatch : matches? w (w.caches.shortcutAt k) (.type t) args.length = some t)
    (hf : ∀ v, f (some v) = pure v) :
    (Run.holding k (e.tryShortcut relay ctx k (.type t) args) >>= f) w =
      Run.always (e.runShortcut relay (w.caches.shortcutAt k) t args) World.release
        ((w.hold k).counted ctx .fastHits) := by
  have htry : e.tryShortcut relay ctx k (.type t) args (w.hold k) =
    (some <$> e.runShortcut relay (w.caches.shortcutAt k) t args)
      ((w.hold k).counted ctx .fastHits) := tryShortcut_of_match hmatch
  have hheld : Run.holding k (e.tryShortcut relay ctx k (.type t) args) w =
      (some <$> Run.always (e.runShortcut relay (w.caches.shortcutAt k) t args) World.release)
        ((w.hold k).counted ctx .fastHits) :=
    (always_congr htry World.release).trans (always_map _ _ _ _)
  rw [Run.bind_apply, hheld, ← Run.bind_apply, some_map_bind _ hf]

theorem holding_of_no_match
    (hmatch : matches? w (w.caches.shortcutAt k) (.type t) args.length ≠ some t) :
    (Run.holding k (e.tryShortcut relay ctx k (.type t) args) >>= f) w =
      f none (w.hold k).release := by
  have htry : e.tryShortcut relay ctx k (.type t) args (w.hold k) = .ok none (w.hold k) :=
    tryShortcut_of_no_match (matches?_eq_none hmatch)
  have hheld : Run.holding k (e.tryShortcut relay ctx k (.type t) args) w =
      .ok none (w.hold k).release := by
    change Run.always _ World.release (w.hold k) = _
    unfold Run.always
    rw [htry]
  rw [Run.bind_apply, hheld]

end

theorem executeShortcut_of_none {relay : CallRelay} {k : ShortcutRef}
    (hmatch : matches? w (w.caches.shortcutAt k) callee args.length = none) :
    e.executeShortcut relay ctx k site callee args w = e.update relay ctx site callee args w := by
  unfold executeShortcut
  rw [Run.bind_apply, tryShortcut_of_no_match hmatch]

theorem type_of_matches {k : Shortcut} {argc : Nat} {t : TypeRef}
    (hmatch : matches? w k callee argc = some t) : callee = .type t := by
  unfold matches? at hmatch
  cases callee with
  | type u =>
    dsimp only at hmatch
    split at hmatch <;> simp_all
  | _ => simp at hmatch

theorem update_type_serves (has : w.caches.HasSpecializer ctx) (t : TypeRef) :
    e.Serves depth ctx (w.caches.siteAt site).shape.signature (.type t) args w
      (Run.world (e.update (e.relayWithin ctx depth) ctx site (.type t) args w)) := by
  have has' := Caches.hasSpecializer_count has ctx .misses
  have kept := Caches.settings_count w.caches ctx ctx .misses
  obtain ⟨answer, c, n, hreq, -, -, off⟩ :=
    Caches.request_counts has' w.heap (w.caches.siteAt site).shape t
  have asked : Story w [.request ctx] { w with caches := c } := by
    have story := Story.request (w.counted ctx .misses) has' (w.caches.siteAt site).shape t
    unfold World.requested World.counted at story
    rw [hreq] at story
    exact (Story.miss w ctx).after story
  rw [update_type_apply, hreq]
  cases answer with
  | error reason => exact fallback_serves (asked.before (.aside rfl)) (Or.inr rfl)
  | ok k =>
    -- A specializer that is disabled would have refused.
    have on : (w.caches.settings ctx).enabled = true := by
      by_contra disabled
      rw [← kept] at disabled
      obtain ⟨⟨reason, hanswer⟩, -⟩ := off (by simpa using disabled)
      simp at hanswer
    let aimed : World := { w with caches := c.setTarget site (some (.shortcut k)) }
    dsimp only
    by_cases hmatch : matches? aimed (aimed.caches.shortcutAt k) (.type t) args.length = some t
    · rw [holding_of_match hmatch fun _ => rfl]
      refine ⟨_, aimed.hold k, .fastHits, _, asked.before (.aside rfl), Or.inr rfl,
        .hit on (aimed.caches.shortcutAt k) rfl, ?_⟩
      rw [world_always]
      rfl
    · rw [holding_of_no_match hmatch]
      exact fallback_serves (asked.before (.aside rfl)) (Or.inr rfl)

theorem update_serves (has : w.caches.HasSpecializer ctx) (hfun : ∀ f, callee ≠ .function f) :
    e.Serves depth ctx (w.caches.siteAt site).shape.signature callee args w
      (Run.world (e.update (e.relayWithin ctx depth) ctx site callee args w)) := by
  by_cases htype : ∃ t, callee = .type t
  · obtain ⟨t, rfl⟩ := htype
    exact update_type_serves has t
  · rw [update_of_plain (not_exists.mp htype) hfun]
    exact fallback_serves (Story.miss w ctx) (Or.inl rfl)

/-- Every call that is dispatched is served in exactly one way. -/
theorem invokeWith_serves (has : w.caches.HasSpecializer ctx)
    (dispatches : w.Dispatches site callee args) :
    e.Serves depth ctx (w.caches.siteAt site).shape.signature callee args w
      (Run.world (e.invokeWith (e.relayWithin ctx depth) ctx site callee args w)) := by
  rw [invokeWith_eq e _ ctx callee dispatches.arguments]
  cases htarget : (w.caches.siteAt site).target with
  | none => exact update_serves has dispatches.callee
  | some target =>
    cases target with
    | function f plan =>
      dsimp only
      rw [if_neg (dispatches.callee f)]
      exact update_serves has dispatches.callee
    | shortcut k =>
      dsimp only
      change e.Serves _ _ _ _ _ _ (Run.world (Run.always _ World.release (w.hold k)))
      rw [world_always]
      have held : Story w [] (w.hold k) := .aside rfl
      refine .before (.after held rfl ?_) rfl
      split
      · rename_i on
        cases hmatch : matches? (w.hold k) ((w.hold k).caches.shortcutAt k) callee args.length with
        | none =>
          rw [executeShortcut_of_none hmatch]
          exact update_serves (w := w.hold k) has dispatches.callee
        | some t =>
          obtain rfl := type_of_matches hmatch
          rw [executeShortcut_of_match hmatch]
          exact ⟨[], w.hold k, .fastHits, _, .refl _, Or.inl rfl, .hit on _ rfl, rfl⟩
      · exact fallback_serves (.refl _) (Or.inl rfl)

/-! ## Every call has a story -/

section

variable (told : e.Told n)

include told

theorem way_told {enabled : Bool} {s : Signature} {c : Counter} {x : Run CallError Value}
    (hrelay : ∀ r v args, Run.Told n (e.relayWithin ctx depth r v args))
    (way : e.Way depth ctx enabled s callee args c x) : Run.Told n x := by
  cases way with
  | hit on k type => exact runShortcut_closed (Run.told_closed n) told.enter hrelay k _ args
  | fallback => exact general_closed (Run.told_closed n) told.enter s callee args

theorem callPlanned_told (f : FunctionRef) (plan : Option (List Nat)) (s : Signature)
    (args : List Value) :
    Run.Told n (Run.mapError CallError.runtime (e.callPlanned f plan s args)) :=
  (Run.told_closed n).mapError _
    (callPlanned_closed (Run.told_closed n) told.enter f plan s args)

theorem update_function_told (f : FunctionRef) (hw : n ≤ w.caches.specializers.size) :
    ∃ l, Story w l
      (Run.world (e.update (e.relayWithin ctx depth) ctx site (.function f) args w)) := by
  obtain ⟨plan, -, heq⟩ := update_of_function e (e.relayWithin ctx depth) ctx site f args w
  have missed := Story.miss w ctx
  obtain ⟨l, story⟩ := (callPlanned_told told f plan _ args).always (f := fun w =>
    { w with caches := w.caches.setTarget site (some (.function f plan)) }) (fun _ => rfl)
    (w.counted ctx .misses) (hw.trans missed.size_le)
  rw [heq]
  exact ⟨l, missed.after story⟩

theorem invokeWith_function_told (f : FunctionRef) (hw : n ≤ w.caches.specializers.size)
    (hargs : args.length = (w.caches.siteAt site).shape.signature.arity) :
    ∃ l, Story w l
      (Run.world (e.invokeWith (e.relayWithin ctx depth) ctx site (.function f) args w)) := by
  rw [invokeWith_eq e _ ctx _ hargs]
  cases htarget : (w.caches.siteAt site).target with
  | none => exact update_function_told told f hw
  | some target =>
    cases target with
    | function g plan =>
      dsimp only
      split
      · rename_i heq
        obtain rfl : f = g := by simpa using heq
        exact callPlanned_told told f plan _ args w hw
      · exact update_function_told told f hw
    | shortcut k =>
      dsimp only
      change ∃ l, Story w l (Run.world (Run.always _ World.release (w.hold k)))
      rw [world_always]
      have held : Story w [] (w.hold k) := .aside rfl
      suffices inner : ∃ l, Story (w.hold k) l (Run.world ((if (w.caches.settings ctx).enabled then
          e.executeShortcut (e.relayWithin ctx depth) ctx k site (.function f) args
          else e.fallback ctx (w.caches.siteAt site).shape.signature (.function f) args)
          (w.hold k))) by
        obtain ⟨l, story⟩ := inner
        exact ⟨l, (held.after story).before (.aside rfl)⟩
      split
      · rw [executeShortcut_of_none rfl]
        exact update_function_told told f hw
      · rename_i off
        have bypass := Story.bypass (w.hold k) ctx (Bool.eq_false_iff.mpr off)
        obtain ⟨l, story⟩ := general_closed (Run.told_closed n) told.enter
          (w.caches.siteAt site).shape.signature (.function f) args
          ((w.hold k).counted ctx .fallbacks) (hw.trans bypass.size_le)
        exact ⟨l, bypass.after story⟩

theorem invokeWith_told (hctx : ctx.index < n)
    (hrelay : ∀ r v args, Run.Told n (e.relayWithin ctx depth r v args)) (site : CallSiteRef)
    (callee : Value) (args : List Value) :
    Run.Told n (e.invokeWith (e.relayWithin ctx depth) ctx site callee args) := by
  intro w hw
  by_cases hargs : args.length = (w.caches.siteAt site).shape.signature.arity
  · by_cases hfun : ∃ f, callee = .function f
    · obtain ⟨f, rfl⟩ := hfun
      exact invokeWith_function_told told f hw hargs
    · have has : w.caches.HasSpecializer ctx := hctx.trans_le hw
      have dispatches : w.Dispatches site callee args := ⟨hargs, not_exists.mp hfun⟩
      obtain ⟨asked, w₁, c, x, before, once, way, ends⟩ := invokeWith_serves has dispatches
      have hsize := before.size_le.trans (Caches.count_prepares w₁.caches ctx c).grows.specializers
      obtain ⟨inside, served⟩ := way_told told hrelay way (w₁.counted ctx c) (hw.trans hsize)
      exact ⟨_, .call has dispatches before once way served ends⟩
  · rw [invokeWith_of_ne e _ ctx callee hargs]
    exact ⟨[], .refl w⟩

theorem relayWithin_told (hctx : ctx.index < n) (depth : Nat) (r : RelayRef) (v : Value)
    (args : List Value) : Run.Told n (e.relayWithin ctx depth r v args) := by
  -- A call site inside of a relay calls relays that may nest one less deep.
  induction depth generalizing r v args with
  | zero => exact (Run.told_closed n).throw _
  | succ depth ih =>
    unfold relayWithin
    refine Run.Told.bind (Run.told_aside fun w => ?_) fun site =>
      Run.Told.bind (Run.told_aside fun _ => rfl) fun c => invokeWith_told told hctx ih site _ _
    change (w.caches.relaySite r).2.specializers = _
    rcases Caches.relaySite_eq w.caches r with heq | heq
    · rw [heq]
    · rw [heq]
      rfl

theorem invoke_told (hctx : ctx.index < n) (site : CallSiteRef) (callee : Value)
    (args : List Value) : Run.Told n (e.invoke ctx site callee args) :=
  invokeWith_told told hctx (relayWithin_told told hctx e.depth) site callee args

end

end Engine

theorem Program.told {p : Program} {n : Nat}
    (named : ∀ {name x}, p.names.contexts.get? name = some x → x.specializer.index < n) :
    p.engine.Told n := by
  refine run_closed (Run.told_closed n) (fun left args active => ?_) bodyLimit
  have active : Engine.Told ⟨p.run left, dispatchLimit⟩ n := active
  exact ⟨Run.told_closed n, active.enter, fun hctx _ callee args =>
    invoke_told active (named hctx) _ callee args⟩

end InlineCache
