import InlineCache.Proofs.Grants

/-! # Runs that make steps, and runs that caches cannot sway

`Steady` says of a run that it goes on by steps, and, where bodies are blind to caches, that it ends
alike from two worlds which differ in caches alone. -/

namespace InlineCache

/-! ## How a run ends -/

namespace Run

variable {ε α β δ : Type}

def world (r : EStateM.Result (Stop ε) World α) : World :=
  match r with
  | .ok _ w => w
  | .error _ w => w

def outcome (r : EStateM.Result (Stop ε) World α) : Except (Stop ε) α :=
  match r with
  | .ok a _ => .ok a
  | .error s _ => .error s

/-- All that can be seen of a run from outside of the caches: how it ended, the heap, and the bodies
entered with their arguments. -/
def seen (r : EStateM.Result (Stop ε) World α) : Except (Stop ε) α × Heap × Array Entry :=
  (outcome r, (world r).heap, (world r).trace)

@[simp] theorem world_ok (a : α) (w : World) :
    world (.ok a w : EStateM.Result (Stop ε) World α) = w := rfl

@[simp] theorem world_error (s : Stop ε) (w : World) :
    world (.error s w : EStateM.Result (Stop ε) World α) = w := rfl

@[simp] theorem seen_ok (a : α) (w : World) :
    seen (.ok a w : EStateM.Result (Stop ε) World α) = (.ok a, w.heap, w.trace) := rfl

@[simp] theorem seen_error (s : Stop ε) (w : World) :
    seen (.error s w : EStateM.Result (Stop ε) World α) = (.error s, w.heap, w.trace) := rfl

theorem eq_ok_of_seen {r r' : EStateM.Result (Stop ε) World α} (same : seen r = seen r') {a : α}
    {w : World} (h : r = .ok a w) :
    ∃ w', r' = .ok a w' ∧ w.heap = w'.heap ∧ w.trace = w'.trace := by
  subst h
  cases r' with
  | ok a' w' =>
    simp only [seen_ok, Prod.mk.injEq, Except.ok.injEq] at same
    obtain ⟨rfl, heap, trace⟩ := same
    exact ⟨w', rfl, heap, trace⟩
  | error s w' => simp at same

theorem bind_apply (x : Run ε α) (f : α → Run ε β) (w : World) :
    (x >>= f) w = match x w with
      | .ok a w => f a w
      | .error s w => .error s w := by
  change EStateM.bind x f w = _
  unfold EStateM.bind
  cases x w <;> rfl

theorem seen_map (f : α → β) (x : Run ε α) (w : World) :
    seen ((f <$> x) w) = (f <$> outcome (x w), (world (x w)).heap, (world (x w)).trace) := by
  rw [← bind_pure_comp, bind_apply]
  cases x w <;> rfl

@[simp] theorem pure_apply (a : α) (w : World) : (pure a : Run ε α) w = .ok a w := rfl

end Run

namespace History

variable {o : Usage} {c₀ : Caches} {B : Prop} {H H' K K' : History} {ε α β δ : Type}

/-! ## Going on by steps -/

/-- The history goes on to this world. -/
def Lands (o : Usage) (H : History) (w : World) : Prop := ∃ K, Reaches o H K ∧ K.world = w

theorem Lands.here (o : Usage) (H : History) : Lands o H H.world := ⟨H, .refl, rfl⟩

theorem Step.lands (step : Step o H K) : Lands o H K.world := ⟨K, .single step, rfl⟩

theorem Reaches.lands {w : World} (run : Reaches o H K) (l : Lands o K w) : Lands o H w := by
  obtain ⟨L, run', hw⟩ := l
  exact ⟨L, run.trans run', hw⟩

theorem Reachable.trans (hr : Reachable o H) (run : Reaches o H K) : Reachable o K := by
  obtain ⟨functions, run'⟩ := hr
  exact ⟨functions, run'.trans run⟩

theorem Reachable.grows (hr : Reachable o H) (run : Reaches o H K) : Grows H K :=
  (run.sane hr.sane).2

/-- A reachable history in which all that exists in `c₀` still does. -/
structure From (o : Usage) (c₀ : Caches) (H : History) : Prop where
  reachable : Reachable o H
  grows : c₀.Grows H.caches

theorem From.trans (hf : From o c₀ H) (run : Reaches o H K) : From o c₀ K :=
  ⟨hf.reachable.trans run, hf.grows.trans (hf.reachable.grows run).caches⟩

/-- Whatever the run does, it does by steps. -/
def Moves (o : Usage) (c₀ : Caches) (x : Run ε α) : Prop :=
  ∀ H, From o c₀ H → Lands o H (Run.world (x H.world))

theorem lands_bind {x : Run ε α} {f : α → Run ε β} (hx : Lands o H (Run.world (x H.world)))
    (hf : ∀ a K, Reaches o H K → x H.world = .ok a K.world → Lands o K (Run.world (f a K.world))) :
    Lands o H (Run.world ((x >>= f) H.world)) := by
  obtain ⟨K, run, hK⟩ := hx
  rw [Run.bind_apply]
  cases h : x H.world with
  | ok a w =>
    rw [h] at hK
    obtain rfl : K.world = w := hK
    exact run.lands (hf a K run h)
  | error s w =>
    rw [h] at hK
    exact ⟨K, run, hK⟩

theorem Moves.bind {x : Run ε α} {f : α → Run ε β} (hx : Moves o c₀ x)
    (hf : ∀ a, Moves o c₀ (f a)) : Moves o c₀ (x >>= f) :=
  fun H h => lands_bind (hx H h) fun a K run _ => hf a K (h.trans run)

/-! ## Ending alike -/

/-- Two histories that differ in caches alone. -/
structure Alike (o : Usage) (c₀ : Caches) (H H' : History) : Prop where
  left : From o c₀ H
  right : From o c₀ H'
  heap : H.heap = H'.heap
  trace : H.world.trace = H'.world.trace

theorem Alike.symm (a : Alike o c₀ H H') : Alike o c₀ H' H :=
  ⟨a.right, a.left, a.heap.symm, a.trace.symm⟩

/-- Two runs look the same, unless a counter has wrapped around in both. -/
def Agree (r r' : EStateM.Result (Stop ε) World α) : Prop :=
  (Run.world r).heap.Fits ∨ (Run.world r').heap.Fits → Run.seen r = Run.seen r'

theorem Agree.symm {r r' : EStateM.Result (Stop ε) World α} (a : Agree r r') : Agree r' r :=
  fun fits => (a fits.symm).symm

theorem Agree.trans {r₁ r₂ r₃ : EStateM.Result (Stop ε) World α} (a : Agree r₁ r₂)
    (b : Agree r₂ r₃) : Agree r₁ r₃ := by
  rintro (fits | fits)
  · have h₁₂ := a (Or.inl fits)
    have heap : (Run.world r₁).heap = (Run.world r₂).heap := congrArg (·.2.1) h₁₂
    exact h₁₂.trans (b (Or.inl (heap ▸ fits)))
  · have h₂₃ := b (Or.inr fits)
    have heap : (Run.world r₂).heap = (Run.world r₃).heap := congrArg (·.2.1) h₂₃
    exact (a (Or.inr (heap ▸ fits))).trans h₂₃

theorem Lands.fits {w : World} (hr : Reachable o H) (l : Lands o H w) (fits : w.heap.Fits) :
    H.heap.Fits := by
  obtain ⟨K, run, rfl⟩ := l
  exact (hr.grows run).heap.fits fits

/-- What holds where a counter may have wrapped around need not be shown. -/
theorem Alike.agree_of_fits (a : Alike o c₀ H H') {r r' : EStateM.Result (Stop ε) World α}
    (l : Lands o H (Run.world r)) (l' : Lands o H' (Run.world r'))
    (h : H.heap.Fits → Agree r r') : Agree r r' := by
  intro fits
  refine h ?_ fits
  rcases fits with fits | fits
  · exact l.fits a.left.reachable fits
  · rw [a.heap]
    exact l'.fits a.right.reachable fits

theorem fits_of_bind {x : Run ε α} {f : α → Run ε β} (hr : Reachable o H)
    (hx : Lands o H (Run.world (x H.world)))
    (hf : ∀ a K, Reaches o H K → x H.world = .ok a K.world → Lands o K (Run.world (f a K.world)))
    (fits : (Run.world ((x >>= f) H.world)).heap.Fits) :
    (Run.world (x H.world)).heap.Fits := by
  obtain ⟨K, run, hK⟩ := hx
  rw [Run.bind_apply] at fits
  cases h : x H.world with
  | ok a w =>
    rw [h] at hK fits
    obtain rfl : K.world = w := hK
    exact (hf a K run h).fits (hr.trans run) fits
  | error s w =>
    rw [h] at fits
    exact fits

/-- Two runs agree if their first parts do, and what follows agrees from alike histories. -/
theorem agree_bind {x y : Run ε α} {f g : α → Run ε β} (alike : Alike o c₀ H H')
    (hx : Lands o H (Run.world (x H.world))) (hy : Lands o H' (Run.world (y H'.world)))
    (hxy : Agree (x H.world) (y H'.world))
    (hf : ∀ a K, Reaches o H K → x H.world = .ok a K.world → Lands o K (Run.world (f a K.world)))
    (hg : ∀ a K, Reaches o H' K → y H'.world = .ok a K.world →
      Lands o K (Run.world (g a K.world)))
    (hfg : ∀ a K K', Alike o c₀ K K' → Reaches o H K → Reaches o H' K' →
      x H.world = .ok a K.world → y H'.world = .ok a K'.world →
      Agree (f a K.world) (g a K'.world)) :
    Agree ((x >>= f) H.world) ((y >>= g) H'.world) := by
  intro fits
  have before : (Run.world (x H.world)).heap.Fits ∨ (Run.world (y H'.world)).heap.Fits :=
    fits.imp (fits_of_bind alike.left.reachable hx hf) (fits_of_bind alike.right.reachable hy hg)
  -- The first parts end alike, so both runs go on or neither does.
  have same := hxy before
  obtain ⟨K, run, hK⟩ := hx
  obtain ⟨K', run', hK'⟩ := hy
  rw [Run.bind_apply, Run.bind_apply] at fits ⊢
  cases h : x H.world with
  | ok a w =>
    cases h' : y H'.world with
    | ok a' w' =>
      rw [h, h'] at same fits
      rw [h] at hK
      rw [h'] at hK'
      obtain rfl : K.world = w := hK
      obtain rfl : K'.world = w' := hK'
      simp only [Run.seen_ok, Prod.mk.injEq, Except.ok.injEq] at same
      obtain ⟨rfl, heap, trace⟩ := same
      have alike' : Alike o c₀ K K' :=
        ⟨alike.left.trans run, alike.right.trans run', heap, trace⟩
      exact hfg a K K' alike' run run' h h' fits
    | error s w' => simp [h, h'] at same
  | error s w =>
    cases h' : y H'.world with
    | ok a' w' => simp [h, h'] at same
    | error s' w' =>
      simp only [h, h', Run.seen_error, Prod.mk.injEq, Except.error.injEq] at same ⊢
      exact same

/-! ## Steady runs -/

/-- The run goes on by steps. If `B` holds, caches cannot sway it. -/
structure Steady (o : Usage) (c₀ : Caches) (B : Prop) (x : Run ε α) : Prop where
  moves : Moves o c₀ x
  agrees : B → ∀ H H', Alike o c₀ H H' → Agree (x H.world) (x H'.world)

/-- What bodies do is steady: they go on by steps, and if `B` holds they are blind to caches. -/
def Bodies (o : Usage) (c₀ : Caches) (B : Prop) (e : Engine) : Prop :=
  ∀ E, Steady o c₀ B (e.run E)

theorem steady_of_eq {x : Run ε α} {r : Except (Stop ε) α}
    (hx : ∀ w, x w = match r with
      | .ok a => .ok a w
      | .error s => .error s w) : Steady o c₀ B x := by
  refine ⟨fun H _ => ?_, fun _ H H' alike _ => ?_⟩
  · rw [hx]
    cases r <;> exact .here o H
  · rw [hx, hx]
    cases r <;> simp [alike.heap, alike.trace]

theorem steady_pure (a : α) : Steady o c₀ B (pure a : Run ε α) :=
  steady_of_eq (r := .ok a) fun _ => rfl

theorem steady_fail (e : ε) : Steady o c₀ B (Run.fail e : Run ε α) :=
  steady_of_eq (r := .error (.error e)) fun _ => rfl

theorem steady_exhausted : Steady o c₀ B (throw .exhausted : Run ε α) :=
  steady_of_eq (r := .error .exhausted) fun _ => rfl

theorem steady_heap : Steady o c₀ B (Run.heap : Run ε Heap) := by
  refine ⟨fun H _ => .here o H, fun _ H H' alike _ => ?_⟩
  change (Except.ok H.heap, H.heap, H.world.trace) = (Except.ok H'.heap, H'.heap, H'.world.trace)
  rw [alike.heap, alike.trace]

theorem Steady.bind {x : Run ε α} {f : α → Run ε β} (hx : Steady o c₀ B x)
    (hf : ∀ a, Steady o c₀ B (f a)) : Steady o c₀ B (x >>= f) := by
  refine ⟨hx.moves.bind fun a => (hf a).moves, fun b H H' alike => ?_⟩
  apply agree_bind alike (hx.moves H alike.left) (hx.moves H' alike.right)
    (hx.agrees b H H' alike)
  · exact fun a K run _ => (hf a).moves K (alike.left.trans run)
  · exact fun a K run _ => (hf a).moves K (alike.right.trans run)
  · exact fun a K K' alike' _ _ _ _ => (hf a).agrees b K K' alike'

theorem Steady.map {x : Run ε α} (hx : Steady o c₀ B x) (f : α → β) : Steady o c₀ B (f <$> x) :=
  hx.bind fun a => steady_pure (f a)

theorem steady_onHeap {f : Heap → α × Heap} (hf : ∀ h : Heap, h.Change (f h).2) :
    Steady o c₀ B (Run.onHeap f : Run ε α) := by
  refine ⟨fun H _ => (Step.heap (hf H.heap)).lands, fun _ H H' alike _ => ?_⟩
  change (Except.ok (f H.heap).1, (f H.heap).2, H.world.trace) =
    (Except.ok (f H'.heap).1, (f H'.heap).2, H'.world.trace)
  rw [alike.heap, alike.trace]

theorem steady_modifyHeap {f : Heap → Heap} (hf : ∀ h : Heap, h.Change (f h)) :
    Steady o c₀ B (Run.modifyHeap f : Run ε Unit) := by
  refine ⟨fun H _ => (Step.heap (hf H.heap)).lands, fun _ H H' alike _ => ?_⟩
  change (Except.ok (), f H.heap, H.world.trace) = (Except.ok (), f H'.heap, H'.world.trace)
  rw [alike.heap, alike.trace]

theorem Bodies.enter {e : Engine} (bodies : Bodies o c₀ B e) (E : Entry) :
    Steady o c₀ B (e.enter E) := by
  refine Steady.bind ⟨fun H _ => (Step.trace _).lands, fun _ H H' alike _ => ?_⟩
    fun _ => bodies E
  change (Except.ok (), H.heap, H.world.trace.push E) =
    (Except.ok (), H'.heap, H'.world.trace.push E)
  rw [alike.heap, alike.trace]

/-! ## Rewording errors -/

theorem world_mapError (f : ε → δ) (x : Run ε α) (w : World) :
    Run.world (Run.mapError f x w) = Run.world (x w) := by
  unfold Run.mapError
  cases x w with
  | ok a w => rfl
  | error s w => cases s <;> rfl

theorem seen_mapError {x y : Run ε α} {w w' : World} (f : ε → δ)
    (same : Run.seen (x w) = Run.seen (y w')) :
    Run.seen (Run.mapError f x w) = Run.seen (Run.mapError f y w') := by
  unfold Run.mapError
  cases h : x w with
  | ok v w =>
    cases h' : y w' with
    | ok v' w' => simpa [h, h'] using same
    | error s' w' => simp [h, h'] at same
  | error s w =>
    cases h' : y w' with
    | ok v' w' => simp [h, h'] at same
    | error s' w' =>
      simp only [h, h', Run.seen_error, Prod.mk.injEq, Except.error.injEq] at same
      obtain ⟨rfl, heap, trace⟩ := same
      cases s <;> simp [heap, trace]

theorem Agree.mapError {x y : Run ε α} {w w' : World} (f : ε → δ) (a : Agree (x w) (y w')) :
    Agree (Run.mapError f x w) (Run.mapError f y w') := by
  intro fits
  rw [world_mapError, world_mapError] at fits
  exact seen_mapError f (a fits)

theorem Steady.mapError {x : Run ε α} (hx : Steady o c₀ B x) (f : ε → δ) :
    Steady o c₀ B (Run.mapError f x) := by
  refine ⟨fun H h => ?_, fun b H H' alike => (hx.agrees b H H' alike).mapError f⟩
  rw [world_mapError]
  exact hx.moves H h

end History

namespace Engine

open History

/-- Every body gives `v` back and does nothing else. -/
def constant (v : Value) : Engine := ⟨fun _ => pure v, 1⟩

theorem constant_bodies {o : Usage} {c₀ : Caches} {B : Prop} (v : Value) :
    Bodies o c₀ B (constant v) := fun _ => steady_pure v

end Engine

end InlineCache
