import InlineCache.Proofs.Builds

/-! # Relays fit their shortcuts

A shortcut goes through two relays at most. In every run they are there, and they take the arguments
of the shortcut with the receiver in front. -/

namespace InlineCache

namespace Caches

variable {c c' : Caches} {h : Heap}

/-- The relay takes the arguments of a shortcut, and the receiver. -/
structure Takes (c : Caches) (n : Nat) (r : RelayRef) : Prop where
  has : c.HasRelay r
  arity : (c.relayAt r).shape.signature.arity = n + 1

def Fitted (c : Caches) (k : Shortcut) : Prop := ∀ r ∈ k.relays, c.Takes k.arity.count r

theorem Takes.mono {n : Nat} {r : RelayRef} (takes : c.Takes n r) (g : Grows c c') :
    c'.Takes n r := by
  refine ⟨takes.has.trans_le g.relays, ?_⟩
  rw [(g.relay r takes.has).2]
  exact takes.arity

theorem RelaysTo.takes {r : RelayRef} {f : FunctionRef} {s : Signature}
    (calls : c.RelaysTo r f s.withReceiver) : c.Takes s.arity r := by
  refine ⟨calls.has, ?_⟩
  rw [calls.shape]
  rfl

/-- All shortcuts fit, also those whose version has come round again. -/
def AllFitted (c : Caches) : Prop := ∀ k, c.Fitted (c.shortcutAt k)

theorem AllFitted.of_shortcuts (all : c.AllFitted) (g : Grows c c')
    (shortcuts : c'.shortcuts = c.shortcuts) : c'.AllFitted := by
  intro k r hr
  have hat : c'.shortcutAt k = c.shortcutAt k := by rw [shortcutAt, shortcutAt, shortcuts]
  rw [hat] at hr ⊢
  exact (all k r hr).mono g

theorem allFitted_initial : Caches.initial.AllFitted := by
  intro k r hr
  have hat : Caches.initial.shortcutAt k = default := rfl
  rw [hat] at hr
  exact absurd hr List.not_mem_nil

/-- Unlike its layout, the relay of a `__new__` is right whatever the numbers of layouts are. -/
theorem allocationFor_relay (hc : Sound c h) {s : SpecializerRef} {shape : SiteShape} {t : TypeRef}
    {i : Option RelayRef} {r : RelayRef}
    (ha : allocationFor h s shape t i c = .ok (.relay r) c') :
    c'.Takes shape.signature.arity r := by
  rw [allocationFor_eq] at ha
  split at ha
  · split at ha <;> cases ha
  · rename_i f heq
    cases ha
    exact (relayFor_spec hc s f shape.signature.withReceiver _).2.2.takes
  · cases ha

theorem build_fitted (hc : Sound c h) (hh : h.Hierarchy) {s : SpecializerRef} {shape : SiteShape}
    {t : TypeRef} {k : Shortcut} (hb : build h s shape t c = .ok k c') : c'.Fitted k := by
  rw [build_eq] at hb
  cases ha : Arity.ofNat shape.signature.arity with
  | error e => simp [ha] at hb
  | ok arity =>
    rw [ha] at hb
    have harity := Arity.count_of_ofNat ha
    rcases initializerFor_spec hc s shape t with ⟨i, f, c₁, hi, -, hs₁, -, inits⟩ | ⟨reason, hi, -⟩
    · simp only [hi] at hb
      rcases allocationFor_spec hs₁ hh s shape t i with
        ⟨a, c₂, hm, hp₂, -, -⟩ | ⟨reason, c₂, hm, -⟩
      · simp only [hm] at hb
        cases hb
        have hp₃ := count_prepares c₂ s .siteBuilds
        intro r hr
        rw [harity]
        rcases Shortcut.mem_relays_iff.mp hr with rfl | rfl
        · exact (allocationFor_relay hs₁ hm).mono hp₃.grows
        · cases inits with
          | some calls => exact (calls.takes.mono hp₂.grows).mono hp₃.grows
      · simp [hm] at hb
    · simp [hi] at hb

theorem AllFitted.file (all : c.AllFitted) (hc : Sound c h) {k : Shortcut} (fitted : c.Fitted k)
    (s : SpecializerRef) (l : LayoutId) (key : ShortcutKey) : (c.file s l key k).2.AllFitted := by
  have grows := (file_spec hc s l key k).1.grows
  intro p r hr
  rw [shortcutAt_file] at hr ⊢
  split at hr
  · rename_i hp
    rw [if_pos hp]
    exact (fitted r hr).mono grows
  · rename_i hp
    rw [if_neg hp]
    exact (all p r hr).mono grows

theorem request_fitted (all : c.AllFitted) (hc : Sound c h) (hh : h.Hierarchy)
    (s : SpecializerRef) (shape : SiteShape) (t : TypeRef) :
    (final (request h s shape t c)).AllFitted := by
  have counted {c : Caches} (all : c.AllFitted) (n : Counter) : (c.count s n).AllFitted :=
    all.of_shortcuts (count_prepares c s n).grows rfl
  unfold request
  split
  · exact counted all .ineligible
  · have hp₁ := openShelf_prepares c s (h.layoutOf t).id
    have hs₁ := openShelf_sound hc s (h.layoutOf t).id
    have opened := all.of_shortcuts hp₁.grows hp₁.shortcuts
    dsimp only
    split
    · exact counted opened .cacheReuses
    · rcases build_spec hs₁ hh s shape t with ⟨k, c', hb, hp₂, hs₂, -⟩ | ⟨o, c', hb, hp₂, -⟩
      · have kept := opened.of_shortcuts hp₂.grows hp₂.shortcuts
        simp only [hb]
        exact kept.file hs₂ (build_fitted hs₁ hh hb) s _ _
      · have kept := opened.of_shortcuts hp₂.grows hp₂.shortcuts
        simp only [hb]
        cases o with
        | refusal reason => exact counted kept .ineligible
        | error e => exact kept

end Caches

namespace History

variable {o : Usage} {H K : History}

theorem Step.fitted (step : Step o H K) (hs : Sane o H) (all : H.caches.AllFitted) :
    K.caches.AllFitted := by
  have grows := (step.sane hs).2.caches
  cases step with
  | request s shape t has =>
    rw [caches_afterRequest]
    exact Caches.request_fitted all hs.sound hs.hierarchy s shape t
  | relaySite r =>
    refine all.of_shortcuts grows ?_
    change (H.caches.relaySite r).2.shortcuts = _
    rcases Caches.relaySite_eq H.caches r with heq | heq
    · rw [heq]
    · rw [heq]
      rfl
  | heap | trace | held | count | aim | plan | clear | addSpecializer | addSite =>
    exact all.of_shortcuts grows rfl

theorem Reachable.fitted (hr : Reachable o H) : H.caches.AllFitted :=
  hr.invariant (P := fun H => H.caches.AllFitted) (fun _ => Caches.allFitted_initial)
    fun _ _ step => step.fitted

end History

end InlineCache
