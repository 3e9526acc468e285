import InlineCache.Proofs.Accounts
import InlineCache.Proofs.Remembered

/-! # What is left over

While a shortcut is worked out nothing is filed yet, but a relay may be made. Two relations say what
the steps of that leave behind: nothing, or one relay that nobody keeps alive. -/

namespace InlineCache

namespace Caches

variable {c c' c₁ c₂ c₃ : Caches} {h : Heap} {s : SpecializerRef} {shape : SiteShape}
  {f : FunctionRef} {hands : List RelayRef}

/-! ## Nothing, or one relay -/

/-- Nothing is filed, nothing remembered and nothing forgotten. -/
structure Untouched (s : SpecializerRef) (c c' : Caches) : Prop extends Prepares c c' where
  held : c'.held = c.held
  relays : c'.relays = c.relays
  others : ∀ p, p ≠ s → c'.specializerAt p = c.specializerAt p
  table : c'.relayTable s = c.relayTable s

/-- One new relay is remembered, and no other. Of those that were, none that lives is forgotten. -/
structure LeftOver (s : SpecializerRef) (f : FunctionRef) (shape : SiteShape) (c c' : Caches) :
    Prop extends Prepares c c' where
  held : c'.held = c.held
  relays : c'.relays = c.relays.push { callable := .function f, shape }
  others : ∀ p, p ≠ s → c'.specializerAt p = c.specializerAt p
  new : (c'.relayTable s).get? ⟨f, shape.signature⟩ = some ⟨c.relays.size⟩
  old : ∀ key r, ⟨f, shape.signature⟩ ≠ key → (c'.relayTable s).get? key = some r →
    (c.relayTable s).get? key = some r
  kept : ∀ key r, (c.relayTable s).get? key = some r → c.Lives [] r →
    (c'.relayTable s).get? key = some r

theorem Prepares.lives_iff (p : Prepares c c') (held : c'.held = c.held)
    (own : ∀ r, (c'.relayAt r).site = (c.relayAt r).site) :
    c'.Lives hands r ↔ c.Lives hands r := by
  have hfiled : ∀ q k, k ∈ (c'.specializerAt q).filed ↔ k ∈ (c.specializerAt q).filed := by
    intro q k
    rw [Specializer.mem_filed_iff, Specializer.mem_filed_iff]
    change (∃ l key, (c'.shelf q l).shortcuts.get? key = _) ↔ _
    simp only [p.filed]
    rfl
  constructor
  · intro lives
    exact lives.mono (List.Subset.refl _) held.symm (filed_subset fun q k => (hfiled q k).mp)
      p.sites.symm p.shortcuts.symm fun r site hr => (own r) ▸ hr
  · intro lives
    exact lives.mono (List.Subset.refl _) held (filed_subset fun q k => (hfiled q k).mpr)
      p.sites p.shortcuts fun r site hr => (own r).symm ▸ hr

namespace Untouched

theorem refl (s : SpecializerRef) (c : Caches) : Untouched s c c :=
  ⟨.refl c, rfl, rfl, fun _ _ => rfl, rfl⟩

theorem trans (a : Untouched s c₁ c₂) (b : Untouched s c₂ c₃) : Untouched s c₁ c₃ :=
  ⟨a.toPrepares.trans b.toPrepares, b.held.trans a.held, b.relays.trans a.relays,
    fun p hp => (b.others p hp).trans (a.others p hp), b.table.trans a.table⟩

theorem relayAt (u : Untouched s c c') (r : RelayRef) : c'.relayAt r = c.relayAt r := by
  rw [Caches.relayAt, Caches.relayAt, u.relays]

theorem lives_iff (u : Untouched s c c') : c'.Lives hands r ↔ c.Lives hands r :=
  u.toPrepares.lives_iff u.held fun r => by rw [u.relayAt]

theorem remembered? (u : Untouched s c c') (key : RelayKey) :
    c'.remembered? s key hands = c.remembered? s key hands := by
  refine Option.ext fun r => ?_
  rw [remembered?_eq_some_iff, remembered?_eq_some_iff, u.table, u.lives_iff]

theorem leftOver (u : Untouched s c₁ c₂) (l : LeftOver s f shape c₂ c₃) :
    LeftOver s f shape c₁ c₃ := by
  refine ⟨u.toPrepares.trans l.toPrepares, l.held.trans u.held, ?_, ?_, ?_, ?_, ?_⟩
  · rw [l.relays, u.relays]
  · exact fun p hp => (l.others p hp).trans (u.others p hp)
  · rw [l.new, u.relays]
  · rw [← u.table]
    exact l.old
  · rw [← u.table]
    exact fun key r hr lives => l.kept key r hr (u.lives_iff.mpr lives)

end Untouched

theorem LeftOver.untouched (l : LeftOver s f shape c₁ c₂) (u : Untouched s c₂ c₃) :
    LeftOver s f shape c₁ c₃ := by
  refine ⟨l.toPrepares.trans u.toPrepares, u.held.trans l.held, u.relays.trans l.relays,
    fun p hp => (u.others p hp).trans (l.others p hp), ?_, ?_, ?_⟩ <;> rw [u.table]
  · exact l.new
  · exact l.old
  · exact l.kept

/-- What is left over does not live, and keeps nothing alive. -/
theorem LeftOver.lives_iff (l : LeftOver s f shape c c') : c'.Lives hands r ↔ c.Lives hands r := by
  refine l.toPrepares.lives_iff l.held fun p => ?_
  have hat : c'.relayAt p = (c.addRelay { callable := .function f, shape }).2.relayAt p := by
    rw [relayAt, relayAt, l.relays]
    rfl
  rw [hat, relayAt_addRelay]
  split
  · rename_i heq
    rw [relayAt_of_le heq.ge]
    rfl
  · rfl

/-! ## Steps of a request -/

theorem modifySpecializer_others {g : Specializer → Specializer} {p : SpecializerRef}
    (hp : p ≠ s) : (c.modifySpecializer s g).specializerAt p = c.specializerAt p := by
  rw [specializerAt_modifySpecializer, if_neg fun both => hp both.1.symm]

theorem modifySpecializer_untouched {g : Specializer → Specializer}
    (settings : ∀ p, (g p).settings = p.settings)
    (filed : ∀ p l, ((g p).shelf l).shortcuts = (p.shelf l).shortcuts)
    (relays : ∀ p, (g p).relays = p.relays) : Untouched s c (c.modifySpecializer s g) := by
  refine ⟨modifySpecializer_prepares settings filed, rfl, rfl,
    fun _ => modifySpecializer_others, ?_⟩
  unfold relayTable
  rw [specializerAt_modifySpecializer]
  split
  · exact relays _
  · rfl

theorem count_untouched (c : Caches) (s : SpecializerRef) (n : Counter) :
    Untouched s c (c.count s n) := by
  refine modifySpecializer_untouched ?_ ?_ ?_
  · exact fun _ => rfl
  · exact fun _ _ => rfl
  · exact fun _ => rfl

theorem openShelf_untouched (c : Caches) (s : SpecializerRef) (l : LayoutId) :
    Untouched s c (c.openShelf s l) := by
  refine modifySpecializer_untouched (fun p => ?_) (fun p l' => by rw [shelf_open]) fun p => ?_
  · split <;> rfl
  · split <;> rfl

theorem counters_openShelf (c : Caches) (s : SpecializerRef) (l : LayoutId) :
    (c.openShelf s l).counters s = c.counters s := by
  unfold counters openShelf
  rw [specializerAt_modifySpecializer]
  split
  · split <;> rfl
  · rfl

theorem shelf_openShelf (c : Caches) (s : SpecializerRef) (l l' : LayoutId) :
    (c.openShelf s l).shelf s l' = c.shelf s l' := by
  change ((c.openShelf s l).specializerAt s).shelf l' = (c.specializerAt s).shelf l'
  unfold openShelf
  rw [specializerAt_modifySpecializer]
  split
  · exact shelf_open _ l l'
  · rfl

theorem allocatorFor_untouched (c : Caches) (h : Heap) (s : SpecializerRef) (l : LayoutRef) :
    Untouched s c (c.allocatorFor h s l).2 := by
  unfold allocatorFor
  dsimp only
  split
  · exact .refl s c
  · have counted : Untouched s c (if (Specializer.directAllocator h l).isSome then
        c.count s .allocatorBuilds else c) := by
      split
      · exact count_untouched c s _
      · exact .refl s c
    refine counted.trans (modifySpecializer_untouched ?_ (fun p l' => ?_) ?_)
    · exact fun _ => rfl
    · rw [Specializer.shelf_insert]
      split
      · rename_i heq
        subst heq
        rfl
      · rfl
    · exact fun _ => rfl

theorem counters_allocatorFor (l : LayoutRef) (vain : (c.allocatorFor h s l).1 = none) :
    (c.allocatorFor h s l).2.counters s = c.counters s := by
  unfold allocatorFor at vain ⊢
  dsimp only at vain ⊢
  split at vain
  · rfl
  · dsimp only at vain ⊢
    rw [counters_modifyShelf, vain]
    rfl

theorem allocatorFor_fst (c : Caches) (h : Heap) (s : SpecializerRef) (l : LayoutRef) :
    (c.allocatorFor h s l).1 =
      (c.shelf s (h.layoutAt l).id).allocator.getD (Specializer.directAllocator h l) := by
  unfold allocatorFor
  dsimp only
  cases (c.shelf s (h.layoutAt l).id).allocator <;> rfl

theorem allocatorFor_again (has : c.HasSpecializer s) (l : LayoutRef) :
    ((c.allocatorFor h s l).2.allocatorFor h s l).1 = (c.allocatorFor h s l).1 := by
  rw [allocatorFor_fst, allocatorFor_fst]
  unfold allocatorFor
  dsimp only
  cases known : (c.shelf s (h.layoutAt l).id).allocator with
  | some found => simp only [known]
  | none =>
    dsimp only
    rw [shelf_modifyShelf, if_pos]
    · rfl
    · refine ⟨⟨rfl, rfl⟩, ?_⟩
      split
      · exact hasSpecializer_modify.mpr has
      · exact has

theorem counters_sweep (c : Caches) (s : SpecializerRef) (extra : List RelayRef) :
    (c.sweep s extra).counters s = c.counters s := by
  unfold sweep counters
  dsimp only
  split
  · rfl
  · rw [specializerAt_modifySpecializer]
    split <;> rfl

theorem counters_remember (has : c.HasSpecializer s) (f : FunctionRef) (shape : SiteShape) :
    (c.remember s f shape).counters s = (c.counters s).record .adapterBuilds := by
  let relay : Relay := { callable := .function f, shape }
  have counted : ((c.addRelay relay).2.count s .adapterBuilds).counters s =
      (c.counters s).record .adapterBuilds :=
    (counters_record _ s s _).trans (if_pos ⟨rfl, has⟩)
  rw [← counted]
  unfold remember counters
  rw [specializerAt_modifySpecializer]
  split <;> rfl

theorem remember_prepares (c : Caches) (s : SpecializerRef) (f : FunctionRef) (shape : SiteShape) :
    Prepares c (c.remember s f shape) := by
  let relay : Relay := { callable := .function f, shape }
  refine ((addRelay_prepares c relay).trans (count_prepares _ s .adapterBuilds)).trans ?_
  exact modifySpecializer_prepares (fun _ => rfl) fun _ _ => rfl

theorem sweep_elsewhere (c : Caches) (s : SpecializerRef) (extra : List RelayRef) :
    (c.sweep s extra).held = c.held ∧ (c.sweep s extra).relays = c.relays ∧
      ∀ p, p ≠ s → (c.sweep s extra).specializerAt p = c.specializerAt p := by
  unfold sweep
  dsimp only
  split
  · exact ⟨rfl, rfl, fun _ _ => rfl⟩
  · exact ⟨rfl, rfl, fun _ => modifySpecializer_others⟩

theorem remember_others (f : FunctionRef) (shape : SiteShape) {p : SpecializerRef} (hp : p ≠ s) :
    (c.remember s f shape).specializerAt p = c.specializerAt p :=
  (modifySpecializer_others hp).trans (modifySpecializer_others hp)

theorem relayFor_leftOver (has : c.HasSpecializer s)
    (unknown : c.remembered? s ⟨f, shape.signature⟩ [] = none) :
    LeftOver s f shape c (c.relayFor s f shape []).2 ∧
      (c.relayFor s f shape []).2.counters s = (c.counters s).record .adapterBuilds := by
  let S : Holding := ⟨c, []⟩
  have hask := relayFor_eq c s f shape []
  rw [unknown] at hask
  have hanswer : S.answer s f shape = ⟨c.relays.size⟩ := congrArg Prod.fst hask
  have table := Holding.get?_ask (S := S) has f shape
  rw [hanswer] at table
  have hcaches : (c.relayFor s f shape []).2 =
      (c.remember s f shape).sweep s [⟨c.relays.size⟩] := congrArg Prod.snd hask
  obtain ⟨held, relays, others⟩ := sweep_elsewhere (c.remember s f shape) s [⟨c.relays.size⟩]
  rw [← hcaches] at held relays others
  refine ⟨⟨?_, held, relays, ?_, ?_, ?_, ?_⟩, ?_⟩
  · rw [hcaches]
    exact (remember_prepares c s f shape).trans (sweep_prepares _ s _)
  · exact fun p hp => (others p hp).trans (remember_others f shape hp)
  · refine (table _ _).mpr ⟨by rw [if_pos rfl], fun _ => .hand ?_⟩
    change _ ∈ [S.answer s f shape]
    rw [hanswer]
    exact List.mem_singleton_self _
  · intro key r hne hr
    have := ((table key r).mp hr).1
    rwa [if_neg hne] at this
  · intro key r hr lives
    refine (table key r).mpr ⟨?_, fun _ => Holding.lives_ask (S := S) lives s f shape⟩
    split
    · -- It would have been remembered.
      rename_i heq
      subst heq
      rw [remembered?_eq_some_iff.mpr ⟨hr, lives⟩] at unknown
      cases unknown
    · exact hr
  · rw [hcaches, counters_sweep, counters_remember has]

end Caches

end InlineCache
