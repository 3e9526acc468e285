import InlineCache.Proofs.Accounts
import InlineCache.Proofs.Grants
import InlineCache.Proofs.Numbering

/-! # One build per type, signature and version

A specializer builds a shortcut for a type and a signature only if it has none for the version of
the type. What it builds takes the place of an older one. -/

namespace InlineCache

open Caches

/-- Where the shortcut belongs. -/
def Grant.key (g : Grant) (h : Heap) : ShortcutKey := ⟨(h.typeAt g.type).id, g.shape.signature⟩

def Grant.shelf (g : Grant) (h : Heap) : LayoutId := (h.layoutOf g.type).id

namespace Specializer

variable {p : Specializer}

def filedKeys (p : Specializer) : List ShortcutKey :=
  p.shelves.entries.flatMap fun e => e.2.shortcuts.keys

theorem length_filedKeys (p : Specializer) : p.filedKeys.length = p.shortcutCount := by
  unfold filedKeys shortcutCount filed Table.values Table.keys
  simp [List.length_flatMap, Function.comp_def]

theorem shelf_of_mem {e : LayoutId × Shelf} (he : e ∈ p.shelves.entries) : p.shelf e.1 = e.2 := by
  rw [shelf, (Table.get?_eq_some_iff _ _ _).mpr he, Option.getD_some]

theorem exists_of_mem_filedKeys {key : ShortcutKey} (h : key ∈ p.filedKeys) :
    ∃ l k, (p.shelf l).shortcuts.get? key = some k := by
  obtain ⟨e, he, hkey⟩ := List.mem_flatMap.mp h
  obtain ⟨entry, hentry, rfl⟩ := List.mem_map.mp hkey
  refine ⟨e.1, entry.2, ?_⟩
  rw [shelf_of_mem he]
  exact (Table.get?_eq_some_iff _ _ _).mpr hentry

theorem nodup_filedKeys (apart : ∀ l l' key k k', (p.shelf l).shortcuts.get? key = some k →
    (p.shelf l').shortcuts.get? key = some k' → l = l') : p.filedKeys.Nodup := by
  refine List.nodup_flatMap.mpr ⟨fun e _ => e.2.shortcuts.nodup, ?_⟩
  refine (List.pairwise_map.mp p.shelves.nodup).imp_of_mem ?_
  intro e e' he he' hne key hkey hkey'
  obtain ⟨entry, hentry, rfl⟩ := List.mem_map.mp hkey
  obtain ⟨entry', hentry', heq⟩ := List.mem_map.mp hkey'
  rw [← shelf_of_mem he, ← Table.get?_eq_some_iff] at hentry
  rw [← shelf_of_mem he', ← Table.get?_eq_some_iff, heq] at hentry'
  exact hne (apart _ _ _ _ _ hentry hentry')

end Specializer

namespace History

variable {o : Usage} {H K : History} {s : SpecializerRef} {t : TypeRef} {shape : SiteShape}

theorem afterRequest_of_ok {k : ShortcutRef} {c : Caches}
    (hreq : Caches.request H.heap s shape t H.caches = .ok (.ok k) c) :
    H.afterRequest s shape t = { H.withCaches c with grants := ⟨s, shape, t, k⟩ :: H.grants } := by
  unfold afterRequest
  rw [hreq]

theorem caches_afterRequest (H : History) (s : SpecializerRef) (shape : SiteShape) (t : TypeRef) :
    (H.afterRequest s shape t).caches = final (Caches.request H.heap s shape t H.caches) := by
  unfold History.afterRequest
  split <;> simp_all [History.withCaches]

/-! ## Steps -/

/-- A step after which types are numbered as definitions number them. -/
structure Orderly (o : Usage) (H K : History) : Prop where
  step : Step o H K
  registers : H.heap.Registers K.heap

theorem Orderly.request (s : SpecializerRef) (shape : SiteShape) (t : TypeRef)
    (has : H.caches.HasSpecializer s) : Orderly o H (H.afterRequest s shape t) :=
  ⟨.request s shape t has, Or.inl (congrArg Heap.registry (heap_afterRequest H s shape t))⟩

/-- Some run leads there, and all its steps are orderly. -/
def Arises (o : Usage) (H : History) : Prop :=
  ∃ functions, Relation.ReflTransGen (Orderly o) (start functions) H

theorem Arises.reachable (ha : Arises o H) : Reachable o H := by
  obtain ⟨functions, run⟩ := ha
  exact ⟨functions, Relation.ReflTransGen.mono (fun _ _ orderly => orderly.step) _ _ run⟩

/-- A step changes the heap, or it is a request, or it touches nothing that is filed. -/
theorem Step.frame (step : Step o H K) :
    (∃ h, H.heap.Change h ∧ K = H.withHeap h) ∨
      (∃ s shape t, H.caches.HasSpecializer s ∧ K = H.afterRequest s shape t) ∨
      K.heap = H.heap ∧ K.grants = H.grants ∧ K.caches.shortcuts = H.caches.shortcuts ∧
        ∀ s l, K.caches.shelf s l = H.caches.shelf s l := by
  cases step with
  | heap change => exact Or.inl ⟨_, change, rfl⟩
  | request s shape t has => exact Or.inr (Or.inl ⟨s, shape, t, has, rfl⟩)
  | count s n => exact Or.inr (Or.inr ⟨rfl, rfl, rfl, fun p l => shelf_count H.caches s p l n⟩)
  | relaySite r =>
    refine Or.inr (Or.inr ⟨rfl, rfl, ?_⟩)
    change (H.caches.relaySite r).2.shortcuts = _ ∧ ∀ s l, (H.caches.relaySite r).2.shelf s l = _
    rcases relaySite_eq H.caches r with heq | heq <;> rw [heq] <;> exact ⟨rfl, fun _ _ => rfl⟩
  | addSpecializer settings valid =>
    refine Or.inr (Or.inr ⟨rfl, rfl, rfl, fun s l => ?_⟩)
    change (H.caches.addSpecializer (.fresh settings valid)).2.shelf s l = _
    unfold Caches.shelf
    rw [specializerAt_addSpecializer]
    split
    · -- There was no such specializer, and the new one has no shelves.
      rename_i hs
      rw [specializerAt, Array.getD_eq_getD_getElem?, hs]
      simp
      rfl
    · rfl
  | trace | held | aim | plan | clear | addSite =>
    exact Or.inr (Or.inr ⟨rfl, rfl, rfl, fun _ _ => rfl⟩)

/-! ## What is filed where -/

/-- Every shortcut was granted. It is filed in its own place, until another one is built for a later
version of the type. -/
structure Shelved (H : History) : Prop where
  has : ∀ g ∈ H.grants, H.heap.Has g.type
  granted : ∀ k, H.caches.HasShortcut k → ∃ g ∈ H.grants, g.shortcut = k
  placed : ∀ s l key k, (H.caches.shelf s l).shortcuts.get? key = some k →
    ∃ g ∈ H.grants, g.shortcut = k ∧ g.specializer = s ∧ l = g.shelf H.heap ∧
      key = g.key H.heap
  kept : ∀ g ∈ H.grants,
    (H.caches.shortcutAt g.shortcut).version = (H.heap.typeAt g.type).version →
      (H.caches.shelf g.specializer (g.shelf H.heap)).shortcuts.get? (g.key H.heap) =
        some g.shortcut
  unique : ∀ g ∈ H.grants, ∀ g' ∈ H.grants, g.specializer = g'.specializer → g.type = g'.type →
    g.shape.signature = g'.shape.signature →
    (H.caches.shortcutAt g.shortcut).version = (H.caches.shortcutAt g'.shortcut).version →
      g.shortcut = g'.shortcut

theorem shelved_start (functions : Array FunctionRecord) : Shelved (start functions) := by
  have nothing : ∀ s l key k,
      ((start functions).caches.shelf s l).shortcuts.get? key ≠ some k := by
    rintro ⟨_ | i⟩ l key k hk <;>
    · change none = some k at hk
      simp at hk
  refine ⟨?_, fun k hk => absurd hk (Nat.not_lt_zero _), ?_, ?_, ?_⟩
  · exact fun g hg => absurd hg List.not_mem_nil
  · exact fun s l key k hk => absurd hk (nothing s l key k)
  · exact fun g hg => absurd hg List.not_mem_nil
  · exact fun g hg => absurd hg List.not_mem_nil

theorem Shelved.congr (hf : Shelved H) (heap : K.heap = H.heap) (grants : K.grants = H.grants)
    (shortcuts : K.caches.shortcuts = H.caches.shortcuts)
    (filed : ∀ s l, (K.caches.shelf s l).shortcuts = (H.caches.shelf s l).shortcuts) :
    Shelved K := by
  have hat : ∀ k, K.caches.shortcutAt k = H.caches.shortcutAt k := fun k => by
    rw [Caches.shortcutAt, Caches.shortcutAt, shortcuts]
  refine ⟨?_, ?_, ?_, ?_, ?_⟩
  · simpa only [heap, grants] using hf.has
  · simpa only [HasShortcut, shortcuts, grants] using hf.granted
  · simpa only [filed, heap, grants] using hf.placed
  · simpa only [filed, hat, heap, grants] using hf.kept
  · simpa only [hat, grants] using hf.unique

theorem Shelved.prepared (hf : Shelved H) {c : Caches} (p : H.caches.Prepares c) :
    Shelved (H.withCaches c) :=
  hf.congr rfl rfl p.shortcuts p.filed

theorem forall_mem_cons_of_symm {α : Type} {R : α → α → Prop} {a : α} {l : List α} (refl : R a a)
    (symm : ∀ b, R a b → R b a) (head : ∀ b ∈ l, R a b) (tail : ∀ b ∈ l, ∀ c ∈ l, R b c) :
    ∀ b ∈ a :: l, ∀ c ∈ a :: l, R b c := by
  refine List.forall_mem_cons.mpr ⟨List.forall_mem_cons.mpr ⟨refl, head⟩, fun b hb => ?_⟩
  exact List.forall_mem_cons.mpr ⟨symm b (head b hb), tail b hb⟩

theorem Shelved.grant (hf : Shelved H) (distinct : H.heap.DistinctIds) {g : Grant}
    (has : H.heap.Has g.type)
    (filed : (H.caches.shelf g.specializer (g.shelf H.heap)).shortcuts.get? (g.key H.heap) =
      some g.shortcut) : Shelved { H with grants := g :: H.grants } := by
  -- It was granted before, perhaps for another shape with the same signature.
  obtain ⟨g₀, hg₀, hk, hs, -, hkey⟩ := hf.placed _ _ _ _ filed
  have ht : g.type = g₀.type :=
    distinct _ _ has (hf.has g₀ hg₀) (congrArg ShortcutKey.type hkey)
  have hsig : g.shape.signature = g₀.shape.signature := congrArg ShortcutKey.signature hkey
  refine ⟨List.forall_mem_cons.mpr ⟨has, hf.has⟩, ?_, ?_, ?_, ?_⟩
  · intro k hk
    obtain ⟨g', hg', heq⟩ := hf.granted k hk
    exact ⟨g', List.mem_cons_of_mem _ hg', heq⟩
  · intro s l key k hk
    obtain ⟨g', hg', rest⟩ := hf.placed s l key k hk
    exact ⟨g', List.mem_cons_of_mem _ hg', rest⟩
  · refine List.forall_mem_cons.mpr ⟨fun _ => filed, hf.kept⟩
  · have other : ∀ g' ∈ H.grants, g.specializer = g'.specializer → g.type = g'.type →
        g.shape.signature = g'.shape.signature →
        (H.caches.shortcutAt g.shortcut).version = (H.caches.shortcutAt g'.shortcut).version →
        g.shortcut = g'.shortcut := by
      rw [← hk, ← hs, ht, hsig]
      exact hf.unique g₀ hg₀
    refine forall_mem_cons_of_symm (fun _ _ _ _ => rfl) ?_ other hf.unique
    intro g' agree hs ht hsig hversion
    exact (agree hs.symm ht.symm hsig.symm hversion.symm).symm

/-- Where there is no current shortcut, those that were granted are for older versions. -/
theorem Shelved.older (hf : Shelved H) (distinct : H.heap.DistinctIds) {g g' : Grant}
    (has : H.heap.Has g.type)
    (stale : ∀ k', (H.caches.shelf g.specializer (g.shelf H.heap)).shortcuts.get?
      (g.key H.heap) = some k' →
        (H.caches.shortcutAt k').version ≠ (H.heap.typeAt g.type).version)
    (hg' : g' ∈ H.grants) (hsame : g.specializer = g'.specializer)
    (hkey : g.key H.heap = g'.key H.heap) :
    (H.caches.shortcutAt g'.shortcut).version ≠ (H.heap.typeAt g.type).version := by
  intro hversion
  have htype : g.type = g'.type := distinct _ _ has (hf.has g' hg') (congrArg ShortcutKey.type hkey)
  have kept := hf.kept g' hg' (htype ▸ hversion)
  rw [← hsame, ← hkey, Grant.shelf, ← htype] at kept
  exact stale _ kept hversion

theorem Shelved.file (hf : Shelved H) (exist : ∀ g ∈ H.grants, H.caches.HasShortcut g.shortcut)
    (distinct : H.heap.DistinctIds) {g : Grant} {k : Shortcut}
    (hg : g.shortcut = ⟨H.caches.shortcuts.size⟩) (has : H.heap.Has g.type)
    (specializer : H.caches.HasSpecializer g.specializer)
    (version : k.version = (H.heap.typeAt g.type).version)
    (stale : ∀ k', (H.caches.shelf g.specializer (g.shelf H.heap)).shortcuts.get?
      (g.key H.heap) = some k' →
        (H.caches.shortcutAt k').version ≠ (H.heap.typeAt g.type).version) :
    Shelved { H.withCaches (H.caches.file g.specializer (g.shelf H.heap) (g.key H.heap) k).2 with
      grants := g :: H.grants } := by
  have old : ∀ g' ∈ H.grants, g'.shortcut ≠ ⟨H.caches.shortcuts.size⟩ := by
    intro g' hg' heq
    have := exist g' hg'
    simp [HasShortcut, heq] at this
  refine ⟨List.forall_mem_cons.mpr ⟨has, hf.has⟩, ?_, ?_, ?_, ?_⟩
  · intro k' hk'
    rcases (hasShortcut_file _ _ _ _ _ _).mp hk' with rfl | hold
    · exact ⟨g, List.mem_cons_self, hg⟩
    · obtain ⟨g', hg', heq⟩ := hf.granted k' hold
      exact ⟨g', List.mem_cons_of_mem _ hg', heq⟩
  · intro s l key k' hk'
    replace hk' := (get?_file _ specializer _ _ _ _ _ _).symm.trans hk'
    split at hk'
    · rename_i hplace
      obtain ⟨rfl, rfl, rfl⟩ := hplace
      exact ⟨g, List.mem_cons_self, hg.trans (Option.some.inj hk'), rfl, rfl, rfl⟩
    · obtain ⟨g', hg', rest⟩ := hf.placed s l key k' hk'
      exact ⟨g', List.mem_cons_of_mem _ hg', rest⟩
  · refine List.forall_mem_cons.mpr ⟨fun _ => ?_, fun g' hg' hversion => ?_⟩
    · rw [hg]
      exact (get?_file _ specializer _ _ _ _ _ _).trans (if_pos ⟨rfl, rfl, rfl⟩)
    · replace hversion := (congrArg Shortcut.version
        ((shortcutAt_file _ _ _ _ _ _).trans (if_neg (old g' hg')))).symm.trans hversion
      refine (get?_file _ specializer _ _ _ _ _ _).trans ?_
      rw [if_neg]
      · exact hf.kept g' hg' hversion
      · rintro ⟨hsame, -, hkey⟩
        have htype : g.type = g'.type :=
          distinct _ _ has (hf.has g' hg') (congrArg ShortcutKey.type hkey)
        exact hf.older distinct has stale hg' hsame hkey (htype ▸ hversion)
  · have hnew := congrArg Shortcut.version ((shortcutAt_file H.caches g.specializer
      (g.shelf H.heap) (g.key H.heap) k g.shortcut).trans (if_pos hg))
    have hold := fun g' hg' => congrArg Shortcut.version ((shortcutAt_file H.caches g.specializer
      (g.shelf H.heap) (g.key H.heap) k g'.shortcut).trans (if_neg (old g' hg')))
    refine forall_mem_cons_of_symm (fun _ _ _ _ => rfl) ?_ ?_ ?_
    · intro g' agree hsame htype hsig hversion
      exact (agree hsame.symm htype.symm hsig.symm hversion.symm).symm
    · intro g' hg' hsame htype hsig hversion
      have hkey : g.key H.heap = g'.key H.heap := by rw [Grant.key, Grant.key, htype, hsig]
      refine absurd ?_ (hf.older distinct has stale hg' hsame hkey)
      exact ((hold g' hg').symm.trans hversion.symm).trans (hnew.trans version)
    · intro g' hg' g'' hg'' hsame htype hsig hversion
      replace hversion := ((hold g' hg').symm.trans hversion).trans (hold g'' hg'')
      exact hf.unique g' hg' g'' hg'' hsame htype hsig hversion

theorem Shelved.afterRequest (hf : Shelved H) (hs : Sane o H) (distinct : H.heap.DistinctIds)
    (has : H.caches.HasSpecializer s) (fresh : Fresh (H.afterRequest s shape t)) :
    Shelved (H.afterRequest s shape t) := by
  unfold History.afterRequest at fresh ⊢
  have served := request_served hs.sound hs.hierarchy has shape t
  cases hr : Caches.request H.heap s shape t H.caches with
  | error e c =>
    rw [hr] at served
    cases served with
    | failed prepares _ => exact hf.prepared prepares
  | ok answer c =>
    rw [hr] at served fresh
    cases served with
    | refused prepares _ => exact hf.prepared prepares
    | @reused k c' prepares works filed current =>
      have all := prepares.trans (count_prepares c' s .cacheReuses)
      have hf' := hf.prepared all
      have ht : H.heap.Has t :=
        (fresh.current ⟨s, shape, t, k⟩ List.mem_cons_self).has
          ((congrArg Shortcut.version (all.shortcutAt k)).trans current).symm
      refine hf'.grant (g := ⟨s, shape, t, k⟩) distinct ht ?_
      exact (all.get? _ _ _).trans filed
    | @built k c' prepares works version stale =>
      have hf' := hf.prepared prepares
      have hsize := congrArg Array.size prepares.shortcuts
      rw [← hsize] at fresh ⊢
      have hnew := congrArg Shortcut.version ((shortcutAt_file (c'.count s .siteBuilds) s
        (H.heap.layoutOf t).id ⟨(H.heap.typeAt t).id, shape.signature⟩ k _).trans (if_pos rfl))
      have ht : H.heap.Has t :=
        (fresh.current ⟨s, shape, t, _⟩ List.mem_cons_self).has (hnew.trans version).symm
      refine hf'.file (g := ⟨s, shape, t, ⟨(c'.count s .siteBuilds).shortcuts.size⟩⟩) ?_ distinct
        rfl ht (has.trans_le prepares.grows.specializers) version ?_
      · exact fun g hg => (hs.shortcut g hg).trans_le prepares.grows.shortcuts
      · intro k' hk' hversion
        refine stale k' ((prepares.get? _ _ _).symm.trans hk') ?_
        exact (congrArg Shortcut.version (prepares.shortcutAt k')).symm.trans hversion

theorem Shelved.heap (hf : Shelved H) (hs : Sane o H) (fresh : Fresh H) {h : Heap}
    (change : H.heap.Change h) (fits : h.Fits) : Shelved (H.withHeap h) := by
  have grows := change.grows hs.hierarchy
  have tracks := change.tracks fresh.wellFormed fits.versions
  have place : ∀ g ∈ H.grants, g.shelf h = g.shelf H.heap ∧ g.key h = g.key H.heap := by
    intro g hg
    rw [Grant.shelf, Grant.key, grows.layoutOf hs.hierarchy (hf.has g hg), grows.id (hf.has g hg)]
    exact ⟨rfl, rfl⟩
  refine ⟨fun g hg => grows.has (hf.has g hg), hf.granted, ?_, ?_, hf.unique⟩
  · intro s l key k hk
    obtain ⟨g, hg, hgk, hgs, hl, hkey⟩ := hf.placed s l key k hk
    obtain ⟨hshelf, hplace⟩ := place g hg
    exact ⟨g, hg, hgk, hgs, hl.trans hshelf.symm, hkey.trans hplace.symm⟩
  · intro g hg hversion
    have hversion : (H.caches.shortcutAt g.shortcut).version = (h.typeAt g.type).version := hversion
    change (H.caches.shelf g.specializer (g.shelf h)).shortcuts.get? (g.key h) = some g.shortcut
    rw [(place g hg).1, (place g hg).2]
    apply hf.kept g hg
    rcases tracks g.type (grows.has (hf.has g hg)) with kept | drawn
    · exact hversion.trans kept.version
    · -- The version is later than that of every shortcut.
      have hle := (fresh.current g hg).version_le
      rw [hversion] at hle
      omega

theorem Step.shelved (step : Step o H K) (hs : Sane o H) (hf : Shelved H) (fresh : Fresh H)
    (fresh' : Fresh K) (distinct : H.heap.DistinctIds) (fits : K.heap.Fits) : Shelved K := by
  rcases step.frame with
    ⟨h, change, rfl⟩ | ⟨s, shape, t, has, rfl⟩ | ⟨heap, grants, shortcuts, same⟩
  · exact hf.heap hs fresh change fits
  · exact hf.afterRequest hs distinct has fresh'
  · exact hf.congr heap grants shortcuts fun s l => congrArg Shelf.shortcuts (same s l)

/-! ## Runs -/

theorem Arises.numbered (ha : Arises o H) : H.heap.Numbered := by
  obtain ⟨functions, run⟩ := ha
  induction run with
  | refl => exact Heap.numbered_initial functions
  | @tail H K run orderly ih =>
    have reached : Arises o H := ⟨functions, run⟩
    rcases orderly.step.frame with ⟨h, change, rfl⟩ | ⟨s, shape, t, -, rfl⟩ | ⟨heap, -⟩
    · exact ih.change reached.reachable.sane.hierarchy change orderly.registers
    · rwa [heap_afterRequest]
    · rwa [heap]

theorem Arises.shelved (ha : Arises o H) (fits : H.heap.Fits)
    (room : H.heap.types.size + 255 ≤ 2 ^ 32) : Shelved H := by
  obtain ⟨functions, run⟩ := ha
  induction run with
  | refl => exact shelved_start functions
  | @tail H K run orderly ih =>
    have reached : Arises o H := ⟨functions, run⟩
    have hs := reached.reachable.sane
    have grows := (orderly.step.sane hs).2.heap
    have fits' := grows.fits fits
    have room' : H.heap.types.size + 255 ≤ 2 ^ 32 := by
      have := grows.types
      omega
    have fresh := reached.reachable.fresh fits'
    exact orderly.step.shelved hs (ih fits' room') fresh (orderly.step.fresh hs fresh fits)
      (reached.numbered.distinctIds room') fits

theorem Step.known (step : Step o H K) (hs : Sane o H) {p : SpecializerRef} {l : LayoutId}
    {a : Option LayoutRef} (known : (H.caches.shelf p l).allocator = some a) :
    (K.caches.shelf p l).allocator = some a := by
  rcases step.frame with ⟨h, change, rfl⟩ | ⟨s, shape, t, has, rfl⟩ | ⟨-, -, -, same⟩
  · exact known
  · rw [caches_afterRequest]
    exact (request_served hs.sound hs.hierarchy has shape t).looks.known known
  · rwa [same]

theorem Reaches.known (run : Reaches o H K) (hs : Sane o H) {p : SpecializerRef} {l : LayoutId}
    {a : Option LayoutRef} (known : (H.caches.shelf p l).allocator = some a) :
    (K.caches.shelf p l).allocator = some a := by
  induction run with
  | refl => exact known
  | tail run step ih => exact step.known (Reaches.sane run hs).1 ih

/-! ## How much is filed -/

def pairs (H : History) (s : SpecializerRef) : Finset (TypeRef × Signature) :=
  ((H.grants.filter (·.specializer = s)).map fun g => (g.type, g.shape.signature)).toFinset

theorem mem_pairs {g : Grant} (hg : g ∈ H.grants) :
    (g.type, g.shape.signature) ∈ H.pairs g.specializer := by
  simp only [pairs, List.mem_toFinset, List.mem_map, List.mem_filter]
  exact ⟨g, ⟨hg, by simp⟩, rfl⟩

theorem Shelved.eq_of_placed (hf : Shelved H) (distinct : H.heap.DistinctIds) {l : LayoutId}
    {sig : Signature} {k : ShortcutRef} (ht : H.heap.Has t)
    (hk : (H.caches.shelf s l).shortcuts.get? ⟨(H.heap.typeAt t).id, sig⟩ = some k) :
    l = (H.heap.layoutOf t).id := by
  obtain ⟨g, hg, -, -, rfl, hkey⟩ := hf.placed s l _ k hk
  rw [distinct t g.type ht (hf.has g hg) (congrArg ShortcutKey.type hkey)]
  rfl

theorem Shelved.shortcutCount_le (hf : Shelved H) (distinct : H.heap.DistinctIds)
    (s : SpecializerRef) : (H.caches.specializerAt s).shortcutCount ≤ (H.pairs s).card := by
  have nodup : (H.caches.specializerAt s).filedKeys.Nodup := by
    apply Specializer.nodup_filedKeys
    intro l l' key k k' hk hk'
    obtain ⟨g, hg, -, -, hl, rfl⟩ := hf.placed s l key k hk
    exact hl.trans (hf.eq_of_placed distinct (hf.has g hg) hk').symm
  have sub : (H.caches.specializerAt s).filedKeys.toFinset ⊆
      (H.pairs s).image fun q => ⟨(H.heap.typeAt q.1).id, q.2⟩ := by
    intro key hkey
    obtain ⟨l, k, hk⟩ := Specializer.exists_of_mem_filedKeys (List.mem_toFinset.mp hkey)
    obtain ⟨g, hg, -, rfl, -, rfl⟩ := hf.placed s l key k hk
    exact Finset.mem_image.mpr ⟨_, mem_pairs hg, rfl⟩
  calc (H.caches.specializerAt s).shortcutCount
      = (H.caches.specializerAt s).filedKeys.toFinset.card := by
        rw [List.toFinset_card_of_nodup nodup, Specializer.length_filedKeys]
    _ ≤ _ := (Finset.card_le_card sub).trans Finset.card_image_le

/-! ## Main theorem -/

theorem Shelved.eq_of_request (hf : Shelved H) (hs : Sane o H) {g : Grant} (hg : g ∈ H.grants)
    (current : (H.caches.shortcutAt g.shortcut).version = (H.heap.typeAt g.type).version)
    (hsig : shape.signature = g.shape.signature) {k : ShortcutRef} {c : Caches}
    (hk : Caches.request H.heap g.specializer shape g.type H.caches = .ok (.ok k) c) :
    k = g.shortcut := by
  have kept := hf.kept g hg current
  unfold Grant.key Grant.shelf at kept
  rw [← hsig] at kept
  have served :=
    request_served hs.sound hs.hierarchy (hs.specializer g hg) shape g.type
  rw [hk] at served
  cases served with
  | reused _ _ filed _ => exact Option.some.inj (filed.symm.trans kept)
  | built _ _ _ stale => exact absurd current (stale _ kept)

/-- At most one shortcut is built for a type, a signature and a version, and every later request
that finds the type at that version gives the same one. What is filed for a type is filed once for
each signature, on the shelf of its layout, so no more is filed than was asked for. An allocator is
looked for once for each layout. -/
theorem one_build_per_version (ha : Arises o H) (fits : H.heap.Fits)
    (room : H.heap.types.size + 255 ≤ 2 ^ 32) :
    ((∀ k, H.caches.HasShortcut k → ∃ g ∈ H.grants, g.shortcut = k) ∧
      (∀ g ∈ H.grants, ∀ g' ∈ H.grants, g.specializer = g'.specializer → g.type = g'.type →
        g.shape.signature = g'.shape.signature →
        (H.caches.shortcutAt g.shortcut).version = (H.caches.shortcutAt g'.shortcut).version →
          g.shortcut = g'.shortcut)) ∧
    ((∀ s shape t k c, H.caches.HasSpecializer s →
        Caches.request H.heap s shape t H.caches = .ok (.ok k) c →
          (c.shortcutAt k).version = (H.heap.typeAt t).version) ∧
      ∀ g ∈ H.grants, ∀ shape k c,
        (H.caches.shortcutAt g.shortcut).version = (H.heap.typeAt g.type).version →
        shape.signature = g.shape.signature →
        Caches.request H.heap g.specializer shape g.type H.caches = .ok (.ok k) c →
          k = g.shortcut) ∧
    ((∀ s l key k, (H.caches.shelf s l).shortcuts.get? key = some k →
        ∃ g ∈ H.grants, g.shortcut = k ∧ g.specializer = s ∧ l = g.shelf H.heap ∧
          key = g.key H.heap) ∧
      (∀ s l t sig k, H.heap.Has t →
        (H.caches.shelf s l).shortcuts.get? ⟨(H.heap.typeAt t).id, sig⟩ = some k →
          l = (H.heap.layoutOf t).id) ∧
      ∀ s, (H.caches.specializerAt s).shortcutCount ≤ (H.pairs s).card) ∧
    (∀ s shape t, H.caches.HasSpecializer s → LooksOnce s (H.heap.layoutOf t).id H.caches
        (final (Caches.request H.heap s shape t H.caches))) ∧
      ∀ K s l a, Reaches o H K → (H.caches.shelf s l).allocator = some a →
        (K.caches.shelf s l).allocator = some a := by
  have hr := ha.reachable
  have hs := hr.sane
  have hf := ha.shelved fits room
  have distinct := ha.numbered.distinctIds room
  refine ⟨⟨hf.granted, hf.unique⟩, ⟨?_, ?_⟩, ⟨hf.placed, ?_, hf.shortcutCount_le distinct⟩, ?_, ?_⟩
  · exact fun s shape t k c has hk => (hr.granted fits has hk).1.symm
  · exact fun g hg shape k c current hsig hk => hf.eq_of_request hs hg current hsig hk
  · exact fun s l t sig k ht hk => hf.eq_of_placed distinct ht hk
  · exact fun s shape t has => (request_served hs.sound hs.hierarchy has shape t).looks
  · exact fun K s l a run known => run.known hs known

/-- The class changed after a shortcut for it was given, and one was asked for again. -/
def renewed : History :=
  let H := sample.withHeap (sample.heap.setAttr ⟨1⟩ "x" .none)
  H.afterRequest .shared sampleGrant.shape ⟨1⟩

theorem renewed_arises : Arises (fun _ _ => True) renewed := by
  have hdefine : sampleStart.heap.define sampleClass = .ok (⟨1⟩, sampleDefined.heap) := by cbv
  have define : Orderly (fun _ _ => True) sampleStart (sampleStart.withHeap sampleDefined.heap) :=
    ⟨.heap (.define (by decide) (by decide) hdefine), Or.inr ⟨_, _, hdefine⟩⟩
  have site : Orderly (fun _ _ => True) _ sampleDefined := ⟨.addSite _, Or.inl rfl⟩
  have ask : Orderly (fun _ _ => True) sampleDefined _ :=
    .request .shared sampleGrant.shape ⟨1⟩ (by decide +kernel)
  have aim : Orderly (fun _ _ => True) _ sample :=
    ⟨.aim ⟨0⟩ sampleGrant (by decide +kernel) (by decide +kernel) trivial, Or.inl rfl⟩
  have edit : Orderly (fun _ _ => True) sample _ :=
    ⟨.heap (.setAttr ⟨1⟩ "x" .none), Heap.registers_setAttr _ _ _ _⟩
  have again : Orderly (fun _ _ => True) _ renewed :=
    .request .shared sampleGrant.shape ⟨1⟩ (by decide +kernel)
  exact ⟨_, (((((Relation.ReflTransGen.single define).tail site).tail ask).tail aim).tail
    edit).tail again⟩

theorem renewed_one_build : renewed.heap.Fits ∧ renewed.heap.types.size + 255 ≤ 2 ^ 32 ∧
    renewed.caches.shortcuts.size = 2 ∧ (renewed.pairs .shared).card = 1 ∧
    (renewed.caches.specializerAt .shared).shortcutCount ≤ 1 := by
  have fits : renewed.heap.Fits := by decide +kernel
  have room : renewed.heap.types.size + 255 ≤ 2 ^ 32 := by decide +kernel
  have pairs : (renewed.pairs .shared).card = 1 := by decide +kernel
  obtain ⟨-, -, ⟨-, -, count⟩, -⟩ := one_build_per_version renewed_arises fits room
  exact ⟨fits, room, by decide +kernel, pairs, (count .shared).trans pairs.le⟩

end History

end InlineCache
