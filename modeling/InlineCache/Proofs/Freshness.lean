import InlineCache.Proofs.CallSteps

/-! # A shortcut that passes its guard is never stale

The guard compares versions. It is enough: the version stands for all that the shortcut was built
from. -/

namespace InlineCache.History

variable {o : Usage} {H : History} {k : ShortcutRef} {s : Signature} {t : TypeRef}

/-- A specializer keeps the shortcut, or a call site has it as its target, for calls with this
signature. -/
def Keeps (H : History) (k : ShortcutRef) (s : Signature) : Prop :=
  (∃ p l key, (H.caches.shelf p l).shortcuts.get? key = some k ∧ key.signature = s) ∨
  ∃ site, (H.caches.siteAt site).target = some (.shortcut k) ∧
    (H.caches.siteAt site).shape.signature = s

/-- The shortcut was given for this type and for no other one. -/
structure GivenFor (H : History) (k : ShortcutRef) (t : TypeRef) : Prop where
  given : ∃ g ∈ H.grants, g.shortcut = k
  type : ∀ g ∈ H.grants, g.shortcut = k → g.type = t

/-- The shortcut runs what the slots of the type hold now, and the type may have shortcuts. -/
structure Resolves (H : History) (k : ShortcutRef) (s : Signature) (t : TypeRef) : Prop where
  standard_init : (H.caches.shortcutAt k).initializer = none ↔ H.heap.slot t .init = .standard
  user_init : ∀ r, (H.caches.shortcutAt k).initializer = some r →
    ∃ f, H.heap.slot t .init = .user (.function f) ∧ H.caches.RelaysTo r f s.withReceiver
  standard_new : ∀ l, (H.caches.shortcutAt k).allocate = .native l →
    H.heap.slot t .new = .standard ∧ l = (H.heap.typeAt t).layout ∧
      (H.heap.layoutAt l).hasSoleAllocator = true
  user_new : ∀ r, (H.caches.shortcutAt k).allocate = .relay r →
    ∃ box f, H.heap.slot t .new = .user (.staticMethod box (.function f)) ∧
      H.caches.RelaysTo r f s.withReceiver
  no_finalizer : H.heap.lookup t Slot.del.attr = none
  not_system : (H.heap.typeAt t).flags.system = false
  not_mixed : (H.heap.typeAt t).flags.mixed = false
  no_metaclass : (H.heap.typeAt t).metaclass = none

/-! ## From the recipe -/

theorem lookup_eq_none_of_slot {h : Heap} (hslot : (h.slot t .del).isFound = false) :
    h.lookup t Slot.del.attr = none := by
  unfold Heap.slot at hslot
  cases hv : h.lookup t Slot.del.attr with
  | none => rfl
  | some v =>
    rw [hv] at hslot
    cases v <;> simp [SlotBinding.classify, SlotBinding.isFound] at hslot

theorem slot_of_initializes {h : Heap} {c : Caches} {sig : Signature} {i : Option RelayRef}
    {f : Option FunctionRef} (hf : h.initializer? sig t = .ok f) (hi : c.Initializes s i f) :
    (i = none ↔ h.slot t .init = .standard) ∧
      ∀ r, i = some r → ∃ f, h.slot t .init = .user (.function f) ∧ c.RelaysTo r f s := by
  cases hi with
  | none =>
    have hslot := (Heap.initializer?_eq_none_iff.mp hf).1
    exact ⟨by simp [hslot], by simp⟩
  | @some r f calls =>
    have hslot := Heap.initializer?_eq_some_iff.mp hf
    refine ⟨by simp [hslot], ?_⟩
    intro r' hr
    cases hr
    exact ⟨f, hslot, calls⟩

theorem slot_of_makes {h : Heap} {c : Caches} {a : Allocation} {m : Maker}
    (hm : h.maker? t = .ok m) (ha : c.Makes s a m) :
    (∀ l, a = .native l → h.slot t .new = .standard ∧ l = (h.typeAt t).layout ∧
      (h.layoutAt l).hasSoleAllocator = true) ∧
    ∀ r, a = .relay r → ∃ box f, h.slot t .new = .user (.staticMethod box (.function f)) ∧
      c.RelaysTo r f s := by
  cases ha with
  | native l =>
    refine ⟨?_, by simp⟩
    intro l' hl
    cases hl
    obtain ⟨hslot, rfl, hsole⟩ := Heap.maker?_eq_native_iff.mp hm
    exact ⟨hslot, rfl, hsole⟩
  | @relay r f calls =>
    refine ⟨by simp, ?_⟩
    intro r' hr
    cases hr
    obtain ⟨box, hslot⟩ := Heap.maker?_eq_user_iff.mp hm
    exact ⟨box, f, hslot, calls⟩

theorem resolves_of_realizes {settings : Settings} {shape : SiteShape} {r : Recipe}
    (hr : H.heap.recipe settings shape t = .ok r)
    (realizes : H.caches.Realizes s (H.caches.shortcutAt k) r) : H.Resolves k s t := by
  obtain ⟨hgate, -, hinit, hmaker⟩ := Heap.recipe_eq_ok_iff.mp hr
  obtain ⟨-, system, mixed, del, -, -, metaclass⟩ := Heap.gate_eq_none_iff.mp hgate
  obtain ⟨standard_init, user_init⟩ := slot_of_initializes hinit realizes.initializer
  obtain ⟨standard_new, user_new⟩ := slot_of_makes hmaker realizes.maker
  exact ⟨standard_init, user_init, standard_new, user_new, lookup_eq_none_of_slot del, system,
    mixed, metaclass⟩

/-! ## Main theorem -/

theorem Sane.keeps (hs : Sane o H) (keeps : H.Keeps k s) :
    ∃ g ∈ H.grants, g.shortcut = k ∧ g.shape.signature = s := by
  rcases keeps with ⟨p, l, key, hk, hkey⟩ | ⟨site, hk, hshape⟩
  · obtain ⟨g, hg, hgk, -, hsig⟩ := hs.filed p l key k hk
    exact ⟨g, hg, hgk, hsig.trans hkey⟩
  · obtain ⟨g, hg, hgk, hgs, -⟩ := hs.target site k hk
    exact ⟨g, hg, hgk, by rw [hgs, hshape]⟩

/-- A shortcut that passes its guard is never stale. In every history, a shortcut that is kept and
has the version of a type was given for that very type, and runs what the slots of the type hold.
Calls through call sites, whatever the bodies do that they enter, lead to such histories again. -/
theorem shortcut_never_stale (hr : Reachable o H) (fits : H.heap.Fits) :
    (∀ k s t, H.Keeps k s →
      (H.heap.typeAt t).version = (H.caches.shortcutAt k).version →
      H.GivenFor k t ∧ H.Resolves k s t) ∧
    ∀ (e : Engine) ctx site callee args, Bodies o H.caches False e →
      H.caches.HasSpecializer ctx → H.caches.HasSite site → o site ctx →
      ∃ K, Reaches o H K ∧ K.world = Run.world (e.invoke ctx site callee args H.world) := by
  constructor
  · intro k s t keeps hversion
    have fresh := hr.fresh fits
    obtain ⟨g, hg, rfl, rfl⟩ := hr.sane.keeps keeps
    have current := fresh.current g hg
    have ht := current.has hversion
    obtain ⟨-, r, hrecipe, realizes⟩ := current.right t ht hversion
    refine ⟨⟨⟨g, hg, rfl⟩, ?_⟩, resolves_of_realizes hrecipe realizes⟩
    -- Another grant of the same shortcut is current too, so it is for the same type.
    intro g' hg' hsame
    rw [← hsame] at hversion
    exact ((fresh.current g' hg').right t ht hversion).1.symm
  · intro e ctx site callee args bodies has hsite use
    exact e.invoke_lands bodies ⟨hr, .refl _⟩ has hsite use callee args

theorem sample_never_stale :
    sample.heap.Fits ∧ sample.GivenFor ⟨0⟩ ⟨1⟩ ∧ sample.Resolves ⟨0⟩ (.plain 0) ⟨1⟩ := by
  have fits : sample.heap.Fits := by decide +kernel
  have keeps : sample.Keeps ⟨0⟩ (.plain 0) := Or.inr ⟨⟨0⟩, by decide +kernel, by decide +kernel⟩
  exact ⟨fits, (shortcut_never_stale (sample_reachable (o := fun _ _ => True) trivial) fits).1 ⟨0⟩
    (.plain 0) ⟨1⟩ keeps (by decide +kernel)⟩

end InlineCache.History
