import InlineCache.Proofs.Freshness
import InlineCache.Proofs.Service

/-! # What the guard of a shortcut is worth later

The guard is checked once, before the object is made. What makes the object may change the class, so
`__init__` is the one that the class had when the guard was checked. -/

namespace InlineCache

namespace History

variable {o : Usage} {H K : History}

theorem Step.tracks (step : Step o H K) (hw : H.heap.WellFormed) (fits : K.heap.Fits) :
    H.heap.Tracks K.heap := by
  cases step with
  | heap change => exact change.tracks hw fits.versions
  | request s shape t has =>
    rw [heap_afterRequest]
    exact .refl _
  | trace | held | count | aim | plan | clear | relaySite | addSpecializer | addSite =>
    exact .refl _

theorem Reaches.tracks (run : Reaches o H K) (hr : Reachable o H) (fits : K.heap.Fits) :
    H.heap.Tracks K.heap := by
  induction run with
  | refl => exact .refl _
  | tail run step ih =>
    have hr' := hr.trans run
    have before := (step.sane hr'.sane).2.heap.fits fits
    exact (ih before).trans (step.tracks (hr'.fresh before).wellFormed fits) (hr.grows run).heap

theorem Reachable.resolves (hr : Reachable o H) (fits : H.heap.Fits) {g : Grant}
    (hg : g ∈ H.grants) {t : TypeRef}
    (hversion : (H.heap.typeAt t).version = (H.caches.shortcutAt g.shortcut).version) :
    H.Resolves g.shortcut g.shape.signature t := by
  have current := (hr.fresh fits).current g hg
  obtain ⟨-, r, hrecipe, realizes⟩ := current.right t (current.has hversion) hversion
  exact resolves_of_realizes hrecipe realizes

end History

namespace Engine

open History

variable {o : Usage} {H : History} {e : Engine} {ctx : SpecializerRef} {k : ShortcutRef}
  {s : Signature} {t : TypeRef} {args : List Value} {i : RelayRef} {v : Value} {w : World}

/-- The `__init__` that a shortcut runs is the one that the class resolved when the guard was
checked. It is the one that the class resolves now as long as the version is still the same;
otherwise the version was drawn while the object was made. -/
theorem initializer_of_guard (hr : Reachable o H) (bodies : Bodies o H.caches False e)
    (keeps : H.Keeps k s)
    (hversion : (H.heap.typeAt t).version = (H.caches.shortcutAt k).version)
    (hinit : (H.caches.shortcutAt k).initializer = some i)
    (hmade : e.runAllocation (e.callRelay ctx) (H.caches.shortcutAt k).allocate t args H.world =
      .ok v w)
    (fits : w.heap.Fits) :
    ∃ f, w.caches.RelaysTo i f s.withReceiver ∧ H.heap.slot t .init = .user (.function f) ∧
      ((w.heap.typeAt t).version = (w.caches.shortcutAt k).version →
        w.heap.slot t .init = .user (.function f)) ∧
      ((w.heap.typeAt t).version ≠ (w.caches.shortcutAt k).version →
        H.heap.versions < (w.heap.typeAt t).version.toNat) := by
  obtain ⟨K, run, hK⟩ := runAllocation_moves bodies (relayWithin_moves bodies ctx e.depth)
    (H.caches.shortcutAt k).allocate t args H ⟨hr, .refl _⟩
  change K.world = Run.world (e.runAllocation (e.callRelay ctx) _ t args H.world) at hK
  rw [hmade] at hK
  obtain rfl : K.world = w := hK
  have grows := hr.grows run
  obtain ⟨g, hg, rfl, rfl⟩ := hr.sane.keeps keeps
  have hat := grows.caches.shortcutAt g.shortcut (hr.sane.shortcut g hg)
  have before := hr.resolves (grows.heap.fits fits) hg hversion
  obtain ⟨f, hslot, calls⟩ := before.user_init i hinit
  refine ⟨f, calls.mono grows.caches, hslot, ?_, ?_⟩
  -- The grant is right for this world too, and a relay calls one function only.
  · intro same
    have after := (hr.trans run).resolves fits (grows.grants hg) same
    obtain ⟨f', hslot', calls'⟩ := after.user_init i (by rw [hat, hinit])
    have hf := (calls.mono grows.caches).callable.symm.trans calls'.callable
    cases hf
    exact hslot'
  · intro changed
    have ht : K.heap.Has t := by
      have current := (hr.fresh (grows.heap.fits fits)).current g hg
      exact grows.heap.has (current.has hversion)
    rcases run.tracks hr fits t ht with kept | drawn
    · exact absurd (kept.version.trans (hversion.trans (by rw [hat]))) changed
    · exact drawn

/-! ## A class that changes while its object is made -/

/-- Functions 0 and 1 initialize; function 1 is the `__init__` of the class. Function 2 is its
`__new__`. -/
def rebindable : History :=
  opening #[⟨"late_init", ["self"], false⟩, ⟨"__init__", ["self"], false⟩,
      ⟨"__new__", ["cls"], false⟩]
    { name := "A"
      attrs := [("__new__", .staticMethod 0 (.function ⟨2⟩)), ("__init__", .function ⟨1⟩)] }
    { signature := .plain 0 }

/-- `__new__` makes function 0 the `__init__` of the class, and then an object. -/
def rebinding : Engine where
  run
    | .function ⟨2⟩ _ => do
      Run.modifyHeap (·.setAttr ⟨1⟩ "__init__" (.function ⟨0⟩))
      .object <$> Run.onHeap (·.addObject ⟨1⟩ .object)
    | _ => pure .none
  depth := 1

theorem rebinding_bodies {c : Caches} {B : Prop} : Bodies o c B rebinding := by
  intro E
  unfold rebinding
  dsimp only
  split
  · have rebind (h : Heap) : h.Change (h.setAttr ⟨1⟩ "__init__" (.function ⟨0⟩)) := .setAttr _ _ _
    have add (h : Heap) : h.Change (h.addObject ⟨1⟩ .object).2 := .aside rfl rfl rfl rfl
    exact (steady_modifyHeap rebind).bind fun _ => (steady_onHeap add).map _
  · exact steady_pure _

/-- The call site has a shortcut from a call before. -/
def rebindableWarm : World := warm rebindable ⟨1⟩ []

theorem rebindableWarm_reachable :
    ∃ H, Reachable (fun _ _ => True) H ∧ H.world = rebindableWarm :=
  warm_reachable (opening_reachable _ _ rfl rfl _) (by decide) (by decide) ⟨1⟩ []

/-- The guard has passed, and the object is made. -/
def rebindableMade (w : World) : EStateM.Result (Stop CallError) World Value :=
  rebinding.runAllocation (rebinding.callRelay .shared) (w.caches.shortcutAt ⟨0⟩).allocate ⟨1⟩ [] w

theorem eq_ok_of_outcome {ε α : Type} {r : EStateM.Result (Stop ε) World α} {a : α}
    (h : Run.outcome r = .ok a) : r = .ok a (Run.world r) := by
  cases r <;> simp_all [Run.outcome]

theorem rebindable_initializer :
    ∃ (H : History) (f : FunctionRef), H.world = rebindableWarm ∧
      (Run.world (rebindableMade H.world)).caches.RelaysTo ⟨0⟩ f (.plain 1) ∧
      H.heap.slot ⟨1⟩ .init = .user (.function f) ∧
      H.heap.versions < ((Run.world (rebindableMade H.world)).heap.typeAt ⟨1⟩).version.toNat := by
  obtain ⟨H, hr, hH⟩ := rebindableWarm_reachable
  have before : (rebindableWarm.caches.siteAt ⟨0⟩).target = some (.shortcut ⟨0⟩) ∧
      (rebindableWarm.caches.siteAt ⟨0⟩).shape.signature = .plain 0 ∧
      (rebindableWarm.heap.typeAt ⟨1⟩).version = (rebindableWarm.caches.shortcutAt ⟨0⟩).version ∧
      (rebindableWarm.caches.shortcutAt ⟨0⟩).initializer = some ⟨0⟩ := by decide +kernel
  have after : Run.outcome (rebindableMade rebindableWarm) = .ok (.object ⟨0⟩) ∧
      (Run.world (rebindableMade rebindableWarm)).heap.Fits ∧
      ((Run.world (rebindableMade rebindableWarm)).heap.typeAt ⟨1⟩).version ≠
        ((Run.world (rebindableMade rebindableWarm)).caches.shortcutAt ⟨0⟩).version := by
    decide +kernel
  rw [← hH] at before after
  obtain ⟨target, signature, version, initializer⟩ := before
  obtain ⟨made, fits, changed⟩ := after
  obtain ⟨f, calls, resolved, -, drawn⟩ := initializer_of_guard hr rebinding_bodies
    (Or.inr ⟨⟨0⟩, target, signature⟩) version initializer (eq_ok_of_outcome made) fits
  exact ⟨H, f, hH, calls, resolved, drawn changed⟩

theorem rebindable_runs_stale :
    ∃ H, Reachable (fun _ _ => True) H ∧ H.Keeps ⟨0⟩ (.plain 0) ∧
      (H.heap.typeAt ⟨1⟩).version = (H.caches.shortcutAt ⟨0⟩).version ∧
      (Run.world (rebindableMade H.world)).heap.slot ⟨1⟩ .init = .user (.function ⟨0⟩) ∧
      (Run.world (rebinding.invoke .shared ⟨0⟩ (.type ⟨1⟩) [] H.world)).trace.toList =
        H.world.trace.toList ++
          [.function ⟨2⟩ [.type ⟨1⟩], .function ⟨1⟩ [.object ⟨0⟩]] := by
  obtain ⟨H, hr, hH⟩ := rebindableWarm_reachable
  refine ⟨H, hr, Or.inr ⟨⟨0⟩, ?_⟩, ?_⟩
  · rw [History.caches, hH]
    decide +kernel
  · rw [History.heap, History.caches, hH]
    decide +kernel

end Engine

end InlineCache
