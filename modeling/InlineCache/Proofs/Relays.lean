import InlineCache.Proofs.Builds
import InlineCache.Proofs.LeftOver

/-! # Relays and their call sites

A request makes two relays at most, one for `__init__` and one for `__new__`. A relay gets a call
site when it is first called, and no other relay ever has that one. From the first call that goes
through on, its target is the function of the relay. -/

namespace InlineCache

namespace Caches

variable {c c' c₁ c₂ c₃ : Caches} {h : Heap} {s : SpecializerRef} {m n : Nat}

/-- At most so many relays were made, none of them with a call site, and no call site changed. -/
structure Hires (s : SpecializerRef) (n : Nat) (c c' : Caches) : Prop where
  sites : c'.sites = c.sites
  own : ∀ r, (c'.relayAt r).site = (c.relayAt r).site
  built : ∃ i ≤ n, (c'.counters s).adapterBuilds = (c.counters s).adapterBuilds + .ofNat i

theorem hires_of_eq (sites : c'.sites = c.sites)
    (own : ∀ r, (c'.relayAt r).site = (c.relayAt r).site)
    (same : (c'.counters s).adapterBuilds = (c.counters s).adapterBuilds) : Hires s 0 c c' :=
  ⟨sites, own, 0, le_rfl, by simp [same]⟩

theorem Hires.refl (s : SpecializerRef) (c : Caches) : Hires s 0 c c :=
  hires_of_eq rfl (fun _ => rfl) rfl

theorem Hires.mono (a : Hires s m c c') (hmn : m ≤ n) : Hires s n c c' := by
  obtain ⟨i, hi, built⟩ := a.built
  exact ⟨a.sites, a.own, i, hi.trans hmn, built⟩

theorem Hires.trans (a : Hires s m c₁ c₂) (b : Hires s n c₂ c₃) : Hires s (m + n) c₁ c₃ := by
  obtain ⟨i, hi, h₁₂⟩ := a.built
  obtain ⟨j, hj, h₂₃⟩ := b.built
  refine ⟨b.sites.trans a.sites, fun r => (b.own r).trans (a.own r), i + j, by omega, ?_⟩
  rw [h₂₃, h₁₂, UInt64.ofNat_add, UInt64.add_assoc]

theorem Hires.tail (a : Hires s n c₁ c₂) (b : Hires s 0 c₂ c₃) : Hires s n c₁ c₃ := a.trans b

/-! ## Steps of a request -/

theorem modifySpecializer_hires {g : Specializer → Specializer}
    (same : ∀ p, (g p).counters.adapterBuilds = p.counters.adapterBuilds) :
    Hires s 0 c (c.modifySpecializer s g) := by
  refine hires_of_eq rfl (fun _ => rfl) ?_
  unfold counters
  rw [specializerAt_modifySpecializer]
  split
  · exact same _
  · rfl

theorem count_hires {k : Counter} (hk : k ≠ .adapterBuilds) : Hires s 0 c (c.count s k) := by
  apply modifySpecializer_hires
  cases k <;> first | exact fun _ => rfl | exact absurd rfl hk

theorem addRelay_hires (c : Caches) {r : Relay} (hsite : r.site = none) :
    Hires s 0 c (c.addRelay r).2 := by
  refine hires_of_eq rfl (fun p => ?_) rfl
  rw [relayAt_addRelay]
  split
  · rename_i heq
    rw [relayAt_of_le heq.ge, hsite]
    rfl
  · rfl

theorem remember_hires (c : Caches) (s : SpecializerRef) (f : FunctionRef) (shape : SiteShape) :
    Hires s 1 c (c.remember s f shape) := by
  have counted : Hires s 1 (c.addRelay { callable := .function f, shape }).2
      ((c.addRelay { callable := .function f, shape }).2.count s .adapterBuilds) := by
    refine ⟨rfl, fun _ => rfl, ?_⟩
    rw [counters_record]
    split
    · exact ⟨1, le_rfl, rfl⟩
    · exact ⟨0, Nat.zero_le 1, by simp⟩
  have added := (addRelay_hires c rfl).trans counted
  refine added.tail ?_
  exact modifySpecializer_hires fun _ => rfl

theorem sweep_hires (c : Caches) (s : SpecializerRef) (extra : List RelayRef) :
    Hires s 0 c (c.sweep s extra) := by
  unfold sweep
  dsimp only
  split
  · exact .refl s c
  · exact modifySpecializer_hires fun _ => rfl

theorem relayFor_hires (c : Caches) (s : SpecializerRef) (f : FunctionRef) (shape : SiteShape)
    (extra : List RelayRef) : Hires s 1 c (c.relayFor s f shape extra).2 := by
  rw [relayFor_eq]
  split
  · exact (Hires.refl s c).mono (Nat.zero_le 1)
  · exact (remember_hires c s f shape).trans (sweep_hires _ s _)

theorem allocatorFor_hires (c : Caches) (h : Heap) (s : SpecializerRef) (l : LayoutRef) :
    Hires s 0 c (c.allocatorFor h s l).2 := by
  unfold allocatorFor
  dsimp only
  split
  · exact .refl s c
  · have counted : Hires s 0 c (if (Specializer.directAllocator h l).isSome then
        c.count s .allocatorBuilds else c) := by
      split
      · exact count_hires (by simp)
      · exact .refl s c
    dsimp only
    refine counted.tail ?_
    exact modifySpecializer_hires fun _ => rfl

theorem file_hires (c : Caches) (s : SpecializerRef) (l : LayoutId) (key : ShortcutKey)
    (k : Shortcut) : Hires s 0 c (c.file s l key k).2 := by
  have added : Hires s 0 c (c.addShortcut k).2 := hires_of_eq rfl (fun _ => rfl) rfl
  refine added.tail ?_
  exact modifySpecializer_hires fun _ => rfl

theorem initializerFor_hires (h : Heap) (s : SpecializerRef) (shape : SiteShape) (t : TypeRef)
    (c : Caches) : Hires s 1 c (final (initializerFor h s shape t c)) := by
  rw [initializerFor_eq]
  split
  · exact (Hires.refl s c).mono (Nat.zero_le 1)
  · exact (Hires.refl s c).mono (Nat.zero_le 1)
  · exact relayFor_hires c s _ _ _

theorem allocationFor_hires (h : Heap) (s : SpecializerRef) (shape : SiteShape) (t : TypeRef)
    (i : Option RelayRef) (c : Caches) :
    Hires s 1 c (final (allocationFor h s shape t i c)) := by
  rw [allocationFor_eq]
  split
  · have found := (allocatorFor_hires c h s (h.typeAt t).layout).mono (Nat.zero_le 1)
    split <;> rename_i heq <;> rwa [heq] at found
  · exact relayFor_hires c s _ _ _
  · exact (Hires.refl s c).mono (Nat.zero_le 1)

theorem build_hires (h : Heap) (s : SpecializerRef) (shape : SiteShape) (t : TypeRef)
    (c : Caches) : Hires s 2 c (final (build h s shape t c)) := by
  rw [build_eq]
  split
  · exact (Hires.refl s c).mono (Nat.zero_le 2)
  · have first := initializerFor_hires h s shape t c
    cases hi : initializerFor h s shape t c with
    | error o c₁ =>
      rw [hi] at first
      exact first.mono one_le_two
    | ok i c₁ =>
      rw [hi] at first
      have both := first.trans (allocationFor_hires h s shape t i c₁)
      dsimp only
      cases ha : allocationFor h s shape t i c₁ with
      | error o c₂ => rwa [ha] at both
      | ok a c₂ =>
        rw [ha] at both
        exact both.tail (count_hires (by simp))

theorem request_hires (h : Heap) (s : SpecializerRef) (shape : SiteShape) (t : TypeRef)
    (c : Caches) : Hires s 2 c (final (request h s shape t c)) := by
  unfold request
  split
  · exact (count_hires (by simp)).mono (Nat.zero_le 2)
  · have opened : Hires s 0 c (c.openShelf s (h.layoutOf t).id) := by
      apply modifySpecializer_hires
      intro p
      split <;> rfl
    dsimp only
    split
    · exact (opened.trans (count_hires (by simp))).mono (Nat.zero_le 2)
    · have built := opened.trans (build_hires h s shape t (c.openShelf s (h.layoutOf t).id))
      split <;> rename_i heq <;> rw [heq] at built
      · exact built.tail (file_hires _ s _ _ _)
      · exact built.tail (count_hires (by simp))
      · exact built

end Caches

/-! ## Call sites of their own -/

namespace Caches

variable {c c' : Caches} {rs : List RelayRef} {r p : RelayRef} {s : CallSiteRef} {f : FunctionRef}
  {plan : Option (List Nat)}

/-- No two relays have one call site. -/
def Unshared (c : Caches) : Prop :=
  ∀ r p s, (c.relayAt r).site = some s → (c.relayAt p).site = some s → r = p

theorem own_relaySite (c : Caches) (r p : RelayRef) :
    ((c.relaySite r).2.relayAt p).site = (c.relayAt p).site ∨
      (c.relayAt p).site = none ∧ p = r ∧
        ((c.relaySite r).2.relayAt p).site = some ⟨c.sites.size⟩ := by
  cases hr : (c.relayAt r).site with
  | some s =>
    left
    rw [relaySite, hr]
  | none =>
    have made : (c.relaySite r).2 =
        (c.addSite (c.relayAt r).shape).2.linkSite r ⟨c.sites.size⟩ := by
      rw [Caches.relaySite, hr]
      rfl
    rw [made, relayAt_linkSite]
    split
    · rename_i same
      obtain rfl : p = r := congrArg RelayRef.mk same.1.symm
      exact Or.inr ⟨hr, rfl, rfl⟩
    · exact Or.inl rfl

theorem Unshared.relaySite (unshared : c.Unshared)
    (linked : ∀ r s, (c.relayAt r).site = some s → c.HasSite s) (r : RelayRef) :
    (c.relaySite r).2.Unshared := by
  -- The new call site is none that a relay had before.
  have new : ∀ p s, (c.relayAt p).site = some s → s ≠ ⟨c.sites.size⟩ := by
    rintro p s hp rfl
    exact lt_irrefl _ (linked p _ hp)
  intro p q s hp hq
  rcases own_relaySite c r p with old | ⟨-, hpr, made⟩ <;>
    rcases own_relaySite c r q with old' | ⟨-, hqr, made'⟩
  · exact unshared p q s (old ▸ hp) (old' ▸ hq)
  · exact absurd (Option.some.inj (hq.symm.trans made')) (new p s (old ▸ hp))
  · exact absurd (Option.some.inj (hp.symm.trans made)) (new q s (old' ▸ hq))
  · exact hpr.trans hqr.symm

/-! ## Warm relays -/

/-- The target of the relay's call site is the function that the relay calls. -/
def warm (c : Caches) (r : RelayRef) : Bool :=
  match (c.relayAt r).site.bind fun s => (c.siteAt s).target with
  | some (.function f _) => (c.relayAt r).callable = .function f
  | _ => false

theorem warm_of_target (own : (c.relayAt r).site = some s)
    (callable : (c.relayAt r).callable = .function f)
    (target : (c.siteAt s).target = some (.function f plan)) : c.warm r = true := by
  simp [warm, own, target, callable]

theorem target_of_warm (own : (c.relayAt r).site = some s)
    (callable : (c.relayAt r).callable = .function f) (hwarm : c.warm r = true) :
    ∃ plan, (c.siteAt s).target = some (.function f plan) := by
  unfold warm at hwarm
  rw [own, Option.bind_some] at hwarm
  split at hwarm
  · rename_i g plan target
    obtain rfl : f = g := by simpa [callable] using hwarm
    exact ⟨plan, target⟩
  · simp at hwarm

theorem warm_congr (own : (c'.relayAt r).site = (c.relayAt r).site)
    (callable : (c'.relayAt r).callable = (c.relayAt r).callable)
    (target : ∀ s, (c.relayAt r).site = some s → (c'.siteAt s).target = (c.siteAt s).target) :
    c'.warm r = c.warm r := by
  unfold warm
  rw [own, callable]
  cases hown : (c.relayAt r).site with
  | none => rfl
  | some s => rw [Option.bind_some, Option.bind_some, target s hown]

/-- How many of the relays are not warm. -/
def cold (c : Caches) (rs : List RelayRef) : Nat := rs.countP fun r => !c.warm r

theorem cold_le_length (c : Caches) (rs : List RelayRef) : c.cold rs ≤ rs.length :=
  List.countP_le_length

theorem cold_le (kept : ∀ r ∈ rs, c.warm r = true → c'.warm r = true) :
    c'.cold rs ≤ c.cold rs := by
  refine List.countP_mono_left fun r hr => ?_
  rw [Bool.not_eq_true', Bool.not_eq_true', ← Bool.not_eq_true, ← Bool.not_eq_true]
  exact mt (kept r hr)

theorem cold_lt (kept : ∀ r ∈ rs, c.warm r = true → c'.warm r = true) (hr : r ∈ rs)
    (before : c.warm r = false) (after : c'.warm r = true) : c'.cold rs < c.cold rs := by
  obtain ⟨front, back, rfl⟩ := List.append_of_mem hr
  have hfront : c'.cold front ≤ c.cold front :=
    cold_le fun p hp => kept p (List.mem_append_left _ hp)
  have hback : c'.cold back ≤ c.cold back :=
    cold_le fun p hp => kept p (List.mem_append_right _ (List.mem_cons_of_mem _ hp))
  unfold cold at hfront hback ⊢
  rw [List.countP_append, List.countP_append, List.countP_cons, List.countP_cons, before, after]
  simp only [Bool.not_true, Bool.not_false, Bool.false_eq_true, if_false, if_true]
  omega

theorem callable_relaySite (c : Caches) (r p : RelayRef) :
    ((c.relaySite r).2.relayAt p).callable = (c.relayAt p).callable := by
  rcases relaySite_eq c r with heq | heq
  · rw [heq]
  · rw [heq, relayAt_linkSite]
    split <;> rfl

theorem siteAt_relaySite (has : c.HasSite s) (r : RelayRef) :
    (c.relaySite r).2.siteAt s = c.siteAt s := by
  rcases relaySite_eq c r with heq | heq
  · rw [heq]
  · rw [heq]
    exact (siteAt_addSite c _ s).trans (if_neg (Nat.ne_of_lt has))

theorem hasSite_relaySite (linked : ∀ s, (c.relayAt r).site = some s → c.HasSite s) :
    (c.relaySite r).2.HasSite (c.relaySite r).1 := by
  cases hr : (c.relayAt r).site with
  | some s =>
    rw [relaySite, hr]
    exact linked s hr
  | none =>
    rw [relaySite, hr]
    exact (Nat.lt_succ_self _).trans_eq (Array.size_push _).symm

theorem own_relaySite_self (has : c.HasRelay r) :
    ((c.relaySite r).2.relayAt r).site = some (c.relaySite r).1 := by
  cases hr : (c.relayAt r).site with
  | some s =>
    rw [relaySite, hr]
    exact hr
  | none =>
    rw [relaySite, hr]
    exact congrArg Relay.site ((relayAt_linkSite _ r r _).trans (if_pos ⟨rfl, has⟩))

theorem warm_relaySite (linked : ∀ s, (c.relayAt p).site = some s → c.HasSite s)
    (r : RelayRef) (hwarm : c.warm p = true) : (c.relaySite r).2.warm p = true := by
  rcases own_relaySite c r p with own | ⟨none, -⟩
  · rw [← hwarm]
    exact warm_congr own (callable_relaySite c r p) fun s hs =>
      congrArg CallSite.target (siteAt_relaySite (linked s hs) r)
  · simp [warm, none] at hwarm

theorem warm_setTarget (unshared : c.Unshared) (own : (c.relayAt r).site = some s)
    (has : c.HasSite s) (callable : (c.relayAt r).callable = .function f)
    (plan : Option (List Nat)) (p : RelayRef) :
    (c.setTarget s (some (.function f plan))).warm p = (c.warm p || decide (p = r)) := by
  by_cases hp : p = r
  · subst hp
    have target := congrArg CallSite.target
      ((siteAt_setTarget c s s (some (.function f plan))).trans (if_pos ⟨rfl, has⟩))
    rw [decide_eq_true rfl, Bool.or_true]
    exact warm_of_target (c := c.setTarget s _) own callable target
  · rw [decide_eq_false hp, Bool.or_false]
    refine warm_congr ?_ ?_ fun q hq => ?_
    · rfl
    · rfl
    · rw [siteAt_setTarget, if_neg]
      rintro ⟨rfl, -⟩
      exact hp (unshared p r _ hq own)

end Caches

namespace History

variable {o : Usage} {H K : History}

theorem Step.unshared (step : Step o H K) (hs : Sane o H) (unshared : H.caches.Unshared) :
    K.caches.Unshared := by
  cases step with
  | request s shape t has =>
    rw [caches_afterRequest]
    intro r p site
    rw [(Caches.request_hires H.heap s shape t H.caches).own,
      (Caches.request_hires H.heap s shape t H.caches).own]
    exact unshared r p site
  | relaySite r => exact unshared.relaySite (fun p s hp => (hs.sound.site p s hp).1) r
  | heap | trace | held | count | aim | plan | clear | addSpecializer | addSite => exact unshared

/-- No two relays ever have one call site. -/
theorem Reachable.unshared (hr : Reachable o H) : H.caches.Unshared := by
  refine hr.invariant (P := fun H => H.caches.Unshared) (fun functions r p s own => ?_)
    fun _ _ step => step.unshared
  change none = some s at own
  exact absurd own (by simp)

end History

end InlineCache
