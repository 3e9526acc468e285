import InlineCache.Caches.Race
import InlineCache.Proofs.Builds

/-! # What builders find

What is missing on a shelf, and what has been filed there since builders began to race. -/

namespace InlineCache

open Caches

variable {h : Heap} {s : SpecializerRef} {l : LayoutId} {c c' : Caches} {b b' : Builder}

/-! ## What is missing -/

namespace Builder

/-- What is there for the builder to use again. -/
def found? (b : Builder) (h : Heap) (s : SpecializerRef) (l : LayoutId) (c : Caches) :
    Option ShortcutRef := c.current? s l (b.key h) (h.typeAt b.type).version

/-- Who asks for the same. -/
def ask (b : Builder) : SiteShape × TypeRef := (b.shape, b.type)

theorem key_of_ask (same : b.ask = b'.ask) : b.key h = b'.key h := by
  obtain ⟨hshape, htype⟩ := Prod.mk.inj same
  rw [key, key, hshape, htype]

theorem found?_of_ask (same : b.ask = b'.ask) : b.found? h s l c = b'.found? h s l c := by
  rw [found?, found?, key_of_ask same, (Prod.mk.inj same).2]

theorem found?_eq_some_iff {k : ShortcutRef} : b.found? h s l c = some k ↔
    (c.shelf s l).shortcuts.get? (b.key h) = some k ∧
      (c.shortcutAt k).version = (h.typeAt b.type).version := by
  unfold found? current?
  rw [Option.filter_eq_some_iff, decide_eq_true_iff]

theorem found?_of_prepares (p : Prepares c c') (b : Builder) :
    b.found? h s l c' = b.found? h s l c := by
  unfold found? current?
  rw [p.get?]
  simp only [p.shortcutAt]

theorem type_of_key (distinct : h.DistinctIds) (hb : h.Has b.type) (hb' : h.Has b'.type)
    (same : b.key h = b'.key h) : b.type = b'.type :=
  distinct _ _ hb hb' (congrArg ShortcutKey.type same)

theorem found?_file (distinct : h.DistinctIds) (has : c.HasSpecializer s)
    (exist : ∀ key k, (c.shelf s l).shortcuts.get? key = some k → c.HasShortcut k)
    (hb : h.Has b.type) (hb' : h.Has b'.type) {k : Shortcut}
    (version : k.version = (h.typeAt b.type).version) :
    b'.found? h s l (c.file s l (b.key h) k).2 =
      if b.key h = b'.key h then some ⟨c.shortcuts.size⟩ else b'.found? h s l c := by
  unfold found? current?
  rw [get?_file c has]
  by_cases same : b.key h = b'.key h
  · simp only [same, and_self, if_true]
    rw [Option.filter_some, shortcutAt_file, if_pos rfl, version, type_of_key distinct hb hb' same]
    simp
  · simp only [same, and_false, if_false]
    cases hk : (c.shelf s l).shortcuts.get? (b'.key h) with
    | none => rfl
    | some k' =>
      have old : k' ≠ ⟨c.shortcuts.size⟩ := by
        rintro rfl
        exact absurd (exist _ _ hk) (lt_irrefl _)
      rw [Option.filter_some, Option.filter_some, shortcutAt_file, if_neg old]

end Builder

namespace Caches

/-- The keys that are asked for and have no current shortcut. -/
def missing (c : Caches) (h : Heap) (s : SpecializerRef) (l : LayoutId) (builders : List Builder) :
    Finset ShortcutKey :=
  ((builders.filter fun b => b.found? h s l c = none).map (·.key h)).toFinset

theorem mem_missing {builders : List Builder} {key : ShortcutKey} :
    key ∈ c.missing h s l builders ↔
      ∃ b ∈ builders, b.found? h s l c = none ∧ b.key h = key := by
  simp [missing, and_assoc]

theorem missing_of_prepares (p : Prepares c c') (builders : List Builder) :
    c'.missing h s l builders = c.missing h s l builders := by
  unfold missing
  simp only [Builder.found?_of_prepares p]

theorem missing_file {builders : List Builder} (distinct : h.DistinctIds)
    (has : c.HasSpecializer s)
    (exist : ∀ key k, (c.shelf s l).shortcuts.get? key = some k → c.HasShortcut k)
    (types : ∀ b ∈ builders, h.Has b.type) (hb : h.Has b.type) {k : Shortcut}
    (version : k.version = (h.typeAt b.type).version) :
    (c.file s l (b.key h) k).2.missing h s l builders =
      (c.missing h s l builders).erase (b.key h) := by
  ext key
  rw [Finset.mem_erase, mem_missing, mem_missing]
  constructor
  · rintro ⟨b', hb', hnone, rfl⟩
    rw [Builder.found?_file distinct has exist hb (types b' hb') version] at hnone
    split at hnone
    · simp at hnone
    · rename_i hne
      exact ⟨Ne.symm hne, b', hb', hnone, rfl⟩
  · rintro ⟨hne, b', hb', hnone, rfl⟩
    refine ⟨b', hb', ?_, rfl⟩
    rw [Builder.found?_file distinct has exist hb (types b' hb') version, if_neg (Ne.symm hne),
      hnone]

theorem build_of_recipe (hc : Sound c h) (hh : h.Hierarchy) (fits : h.Fits)
    (has : c.HasSpecializer s) {shape : SiteShape} {t : TypeRef} {r : Recipe}
    (hr : h.construction? shape.signature t = .ok r) :
    ∃ k c', build h s shape t c = .ok k c' ∧ Prepares c c' ∧ Sound c' h ∧
      k.version = (h.typeAt t).version ∧
      (c'.counters s).siteBuilds = (c.counters s).siteBuilds + 1 ∧
      (c'.counters s).cacheReuses = (c.counters s).cacheReuses := by
  rcases build_spec hc hh s shape t with
    ⟨k, c', hb, prepares, sound, version, -⟩ | ⟨o, c', -, -, -, hno⟩
  · refine ⟨k, c', hb, prepares, sound, version, ?_⟩
    rcases build_works has h shape t with ⟨k', c₂, hb', works, -⟩ | ⟨o, c₂, hb', -⟩
    · rw [hb] at hb'
      obtain ⟨-, rfl⟩ := EStateM.Result.ok.inj hb'
      have has₂ := works.has has
      rw [counters_record, if_pos ⟨rfl, has₂⟩, Counters.record, works.builds, works.reuses]
      exact ⟨rfl, rfl⟩
    · rw [hb] at hb'
      simp at hb'
  · rw [hr] at hno
    simp at hno
    exact absurd fits hno

end Caches

namespace Race

variable {start : Race}

/-- All builders that race are at the start, and their types can be built for. -/
structure Ready (h : Heap) (s : SpecializerRef) (l : LayoutId) (start : Race) : Prop where
  sound : start.caches.Sound h
  hierarchy : h.Hierarchy
  fits : h.Fits
  distinct : h.DistinctIds
  specializer : start.caches.HasSpecializer s
  exist : ∀ key k, (start.caches.shelf s l).shortcuts.get? key = some k →
    start.caches.HasShortcut k
  asking : ∀ b ∈ start.builders, b.phase = .asking
  free : start.holder = none
  eligible : ∀ b ∈ start.builders,
    ∃ r, h.recipe (start.caches.settings s) b.shape b.type = .ok r
  shelf : ∀ b ∈ start.builders, (h.layoutOf b.type).id = l

theorem Ready.has (ready : Ready h s l start) {b : Builder} (hb : b ∈ start.builders) :
    h.Has b.type := by
  obtain ⟨_, hr⟩ := ready.eligible b hb
  exact Heap.has_of_recipe hr

/-! ## What is built -/

/-- Every shortcut that is new is good for a key that was missing at the start. -/
structure Stocked (h : Heap) (s : SpecializerRef) (l : LayoutId) (start : Race) (c : Caches) :
    Prop where
  sound : c.Sound h
  grows : start.caches.Grows c
  exist : ∀ key k, (c.shelf s l).shortcuts.get? key = some k → c.HasShortcut k
  kept : ∀ b ∈ start.builders, ∀ k, b.found? h s l start.caches = some k →
    b.found? h s l c = some k
  built : ∀ k, c.HasShortcut k → ¬ start.caches.HasShortcut k →
    ∃ b ∈ start.builders, b.found? h s l start.caches = none ∧ b.found? h s l c = some k
  size : c.shortcuts.size + (c.missing h s l start.builders).card =
    start.caches.shortcuts.size + (start.caches.missing h s l start.builders).card

theorem Ready.stocked (ready : Ready h s l start) : Stocked h s l start start.caches :=
  ⟨ready.sound, .refl _, ready.exist, fun _ _ _ hk => hk, fun _ hk hnot => absurd hk hnot, rfl⟩

theorem Stocked.has (st : Stocked h s l start c) (ready : Ready h s l start) :
    c.HasSpecializer s := ready.specializer.trans_le st.grows.specializers

theorem Stocked.prepared (st : Stocked h s l start c) (prepares : Prepares c c')
    (sound : c'.Sound h) : Stocked h s l start c' := by
  refine ⟨sound, st.grows.trans prepares.grows, ?_, ?_, ?_, ?_⟩
  · intro key k hk
    rw [prepares.get?] at hk
    exact (st.exist key k hk).trans_le prepares.grows.shortcuts
  · intro b hb k hk
    rw [Builder.found?_of_prepares prepares]
    exact st.kept b hb k hk
  · intro k hk hnot
    unfold HasShortcut at hk
    rw [prepares.shortcuts] at hk
    obtain ⟨b, hb, hnone, hsome⟩ := st.built k hk hnot
    exact ⟨b, hb, hnone, (Builder.found?_of_prepares prepares b).trans hsome⟩
  · rw [prepares.shortcuts, missing_of_prepares prepares]
    exact st.size

section

variable (st : Stocked h s l start c) (ready : Ready h s l start) {b₀ : Builder}
  (hb₀ : b₀ ∈ start.builders) (hnone : b₀.found? h s l c = none) {k : Shortcut}
  (version : k.version = (h.typeAt b₀.type).version)

include st ready hb₀ hnone version

theorem Stocked.stays (hb : b ∈ start.builders) {k' : ShortcutRef}
    (hk' : b.found? h s l c = some k') :
    b.found? h s l (c.file s l (b₀.key h) k).2 = some k' := by
  rw [Builder.found?_file ready.distinct (st.has ready) st.exist (ready.has hb₀) (ready.has hb)
    version, if_neg, hk']
  intro same
  have htype := Builder.type_of_key ready.distinct (ready.has hb₀) (ready.has hb) same
  unfold Builder.found? at hnone hk'
  rw [same, htype, hk'] at hnone
  simp at hnone

theorem Stocked.missing_file : ((c.file s l (b₀.key h) k).2.missing h s l start.builders).card + 1 =
    (c.missing h s l start.builders).card := by
  rw [Caches.missing_file ready.distinct (st.has ready) st.exist (fun _ => ready.has)
    (ready.has hb₀) version]
  exact Finset.card_erase_add_one (mem_missing.mpr ⟨b₀, hb₀, hnone, rfl⟩)

theorem Stocked.file : Stocked h s l start (c.file s l (b₀.key h) k).2 := by
  obtain ⟨filed, sound, -⟩ := file_spec st.sound s l (b₀.key h) k
  have stays : ∀ {b}, b ∈ start.builders → ∀ {k'}, b.found? h s l c = some k' →
      b.found? h s l (c.file s l (b₀.key h) k).2 = some k' :=
    fun hb _ hk' => stays st ready hb₀ hnone version hb hk'
  refine ⟨sound, st.grows.trans filed.grows, ?_, ?_, ?_, ?_⟩
  · intro key k' hk'
    rw [get?_file c (st.has ready)] at hk'
    rw [hasShortcut_file]
    split at hk'
    · exact Or.inl (Option.some.inj hk').symm
    · exact Or.inr (st.exist key k' hk')
  · exact fun b hb k' hk' => stays hb (st.kept b hb k' hk')
  · intro k' hk' hnot
    rcases (hasShortcut_file _ _ _ _ _ _).mp hk' with rfl | hold
    · refine ⟨b₀, hb₀, ?_, ?_⟩
      · cases hstart : b₀.found? h s l start.caches with
        | none => rfl
        | some k₀ =>
          rw [st.kept b₀ hb₀ k₀ hstart] at hnone
          simp at hnone
      · rw [Builder.found?_file ready.distinct (st.has ready) st.exist (ready.has hb₀)
          (ready.has hb₀) version, if_pos rfl]
    · obtain ⟨b, hb, hnone', hsome⟩ := st.built k' hold hnot
      exact ⟨b, hb, hnone', stays hb hsome⟩
  · have hsize : (c.file s l (b₀.key h) k).2.shortcuts.size = c.shortcuts.size + 1 :=
      Array.size_push _
    have := missing_file st ready hb₀ hnone version
    have := st.size
    omega

end

/-- Once nothing is missing, there is one new shortcut for each key that was. -/
theorem Stocked.complete (st : Stocked h s l start c)
    (nothing : c.missing h s l start.builders = ∅) :
    (∀ key ∈ start.caches.missing h s l start.builders, ∃ k, c.HasShortcut k ∧
      ¬ start.caches.HasShortcut k ∧ (c.shelf s l).shortcuts.get? key = some k) ∧
    ∀ k, c.HasShortcut k → ¬ start.caches.HasShortcut k →
      ∃! key, key ∈ start.caches.missing h s l start.builders ∧
        (c.shelf s l).shortcuts.get? key = some k := by
  set fresh := start.caches.missing h s l start.builders with hfresh
  set filed := (c.shelf s l).shortcuts.get? with hfiled
  have built : ∀ k, c.HasShortcut k → ¬ start.caches.HasShortcut k →
      ∃ key ∈ fresh, filed key = some k := by
    intro k hk hnot
    obtain ⟨b, hb, hnone, hsome⟩ := st.built k hk hnot
    exact ⟨_, mem_missing.mpr ⟨b, hb, hnone, rfl⟩, (Builder.found?_eq_some_iff.mp hsome).1⟩
  -- There are as many new shortcuts as keys were missing, so no key has two or none.
  let new := (Finset.Ico start.caches.shortcuts.size c.shortcuts.size).image
    fun n => some (⟨n⟩ : ShortcutRef)
  have mem_new : ∀ {x}, x ∈ new ↔ ∃ k, c.HasShortcut k ∧ ¬ start.caches.HasShortcut k ∧
      x = some k := by
    intro x
    simp only [new, Finset.mem_image, Finset.mem_Ico, HasShortcut, not_lt]
    constructor
    · rintro ⟨n, hn, rfl⟩
      exact ⟨⟨n⟩, hn.2, hn.1, rfl⟩
    · rintro ⟨k, hk, hnot, rfl⟩
      exact ⟨k.index, ⟨hnot, hk⟩, rfl⟩
  have card : new.card = fresh.card := by
    have size : _ = _ + fresh.card := st.size
    rw [nothing, Finset.card_empty] at size
    rw [Finset.card_image_of_injective _ (fun n m heq => by simpa using heq), Nat.card_Ico]
    omega
  have sub : new ⊆ fresh.image filed := by
    intro x hx
    obtain ⟨k, hk, hnot, rfl⟩ := mem_new.mp hx
    exact Finset.mem_image.mpr (built k hk hnot)
  have all : new = fresh.image filed :=
    Finset.eq_of_subset_of_card_le sub (Finset.card_image_le.trans card.ge)
  have inj : Set.InjOn filed fresh := Finset.card_image_iff.mp (by rw [← all, card])
  constructor
  · intro key hkey
    exact mem_new.mp (all ▸ Finset.mem_image_of_mem filed hkey)
  · intro k hk hnot
    obtain ⟨key, hkey, heq⟩ := built k hk hnot
    exact ⟨key, ⟨hkey, heq⟩, fun key' h' => inj h'.1 hkey (h'.2.trans heq.symm)⟩

end Race

end InlineCache
