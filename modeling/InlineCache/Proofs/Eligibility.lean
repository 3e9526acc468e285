import InlineCache.Proofs.Construction
import InlineCache.Proofs.Freshness
import InlineCache.Proofs.Story

/-! # Which types get shortcuts

A request gives a shortcut exactly to the types that may have one, and names the first thing in the
way to the others. What is cached makes no difference to that. -/

namespace InlineCache

namespace Refusal

/-- The first of these reasons that applies. -/
def first? (objections : List (Refusal × Bool)) : Option Refusal :=
  (objections.find? Prod.snd).map Prod.fst

theorem first?_nil : first? [] = none := rfl

theorem first?_cons (reason : Refusal) (applies : Bool) (l : List (Refusal × Bool)) :
    first? ((reason, applies) :: l) = if applies then some reason else first? l := by
  cases applies <;> rfl

theorem first?_append (l l' : List (Refusal × Bool)) :
    first? (l ++ l') = (first? l).or (first? l') := by
  unfold first?
  rw [List.find?_append]
  cases l.find? Prod.snd <;> rfl

theorem first?_eq_none_iff {l : List (Refusal × Bool)} :
    first? l = none ↔ ∀ x ∈ l, x.2 = false := by
  simp [first?]

end Refusal

namespace Heap

variable {settings : Settings} {h : Heap} {shape : SiteShape} {s : Signature} {t : TypeRef}
  {reason : Refusal}

/-! ## The rules -/

/-- Whether a slot holds a plain function. -/
def isFunction : Option Value → Bool
  | some (.function _) => true
  | _ => false

/-- Whether a slot holds a static method around a plain function. -/
def isStaticFunction : Option Value → Bool
  | some (.staticMethod _ (.function _)) => true
  | _ => false

def standardInit (h : Heap) (t : TypeRef) : Bool :=
  h.lookup t "__init__" = some (.builtin .objectInit)

def standardNew (h : Heap) (t : TypeRef) : Bool :=
  h.lookup t "__new__" = some (.builtin .objectNew)

/-- What may be in the way before `__init__` and `__new__` are looked at. -/
def gateObjections (settings : Settings) (h : Heap) (shape : SiteShape) (t : TypeRef) :
    List (Refusal × Bool) :=
  [(.disabled, !settings.enabled),
    (.systemType, (h.typeAt t).flags.system),
    (.mixedModels, (h.typeAt t).flags.mixed),
    (.finalizer, (h.line t).any fun u => (h.ownAttr u "__del__").isSome),
    (.arityOverCap shape.signature.arity settings.maxArity,
      settings.maxArity < shape.signature.arity),
    (.typedReceiver, shape.typed),
    (.customMetaclass, (h.typeAt t).metaclass.isSome)]

/-- What may be wrong with `__init__`. -/
def initObjections (h : Heap) (s : Signature) (t : TypeRef) : List (Refusal × Bool) :=
  [(.argumentsWithoutSlots, h.standardInit t && h.standardNew t && s.arity ≠ 0),
    (.unsupportedInit, !(h.standardInit t || isFunction (h.lookup t "__init__")))]

def newObjections (h : Heap) (t : TypeRef) : List (Refusal × Bool) :=
  [(.unsupportedNew, !(h.standardNew t || isStaticFunction (h.lookup t "__new__"))),
    (.noNativeAllocator, h.standardNew t && !(h.layoutOf t).hasSoleAllocator)]

/-- Everything that may be in the way, in the order in which it is named. -/
def objections (settings : Settings) (h : Heap) (shape : SiteShape) (t : TypeRef) :
    List (Refusal × Bool) :=
  h.gateObjections settings shape t ++ h.initObjections shape.signature t ++ h.newObjections t

/-- Construction of the type may be cut short for this shape of call. -/
structure Eligible (settings : Settings) (h : Heap) (shape : SiteShape) (t : TypeRef) : Prop where
  enabled : settings.enabled = true
  not_system : (h.typeAt t).flags.system = false
  not_mixed : (h.typeAt t).flags.mixed = false
  no_finalizer : ∀ u ∈ h.line t, h.ownAttr u "__del__" = none
  arity : shape.signature.arity ≤ settings.maxArity
  dynamic : shape.typed = false
  no_metaclass : (h.typeAt t).metaclass = none
  init : h.lookup t "__init__" = some (.builtin .objectInit) ∨
    ∃ f, h.lookup t "__init__" = some (.function f)
  new : (∃ box f, h.lookup t "__new__" = some (.staticMethod box (.function f))) ∨
    h.lookup t "__new__" = some (.builtin .objectNew) ∧
      ∃ c, (h.layoutOf t).ctors = [c] ∧ c.params = [.type]
  used : ¬ (h.lookup t "__init__" = some (.builtin .objectInit) ∧
    h.lookup t "__new__" = some (.builtin .objectNew) ∧ 0 < shape.signature.arity)

/-! ## What the slots hold -/

theorem isFound_slot (h : Heap) (t : TypeRef) :
    (h.slot t .del).isFound = (h.line t).any fun u => (h.ownAttr u "__del__").isSome := by
  have hfound : (h.slot t .del).isFound = (h.lookup t "__del__").isSome := by
    unfold slot
    cases hv : h.lookup t Slot.del.attr with
    | none => exact (congrArg Option.isSome hv).symm
    | some v =>
      rw [show h.lookup t "__del__" = some v from hv]
      cases v <;> rfl
  rw [hfound, Bool.eq_iff_iff, List.any_eq_true]
  exact List.findSome?_isSome_iff

theorem slot_init_eq_standard_iff : h.slot t .init = .standard ↔ h.standardInit t = true := by
  rw [standardInit, decide_eq_true_iff]
  exact ⟨lookup_init_of_standard, fun found => (slot_eq_iff (by simp)).mpr ⟨_, found, rfl⟩⟩

theorem slot_new_eq_standard_iff : h.slot t .new = .standard ↔ h.standardNew t = true := by
  rw [standardNew, decide_eq_true_iff]
  exact ⟨lookup_new_of_standard, fun found => (slot_eq_iff (by simp)).mpr ⟨_, found, rfl⟩⟩

theorem slot_init_eq_user_iff {f : FunctionRef} :
    h.slot t .init = .user (.function f) ↔ h.lookup t "__init__" = some (.function f) :=
  ⟨lookup_of_slot_user, fun found => (slot_eq_iff (by simp)).mpr ⟨_, found, rfl⟩⟩

theorem slot_new_eq_user_iff {box : Nat} {f : FunctionRef} :
    h.slot t .new = .user (.staticMethod box (.function f)) ↔
      h.lookup t "__new__" = some (.staticMethod box (.function f)) :=
  ⟨lookup_of_slot_user, fun found => (slot_eq_iff (by simp)).mpr ⟨_, found, rfl⟩⟩

theorem isFunction_iff {found : Option Value} :
    isFunction found = true ↔ ∃ f, found = some (.function f) := by
  unfold isFunction
  split <;> simp_all

theorem isStaticFunction_iff {found : Option Value} :
    isStaticFunction found = true ↔ ∃ box f, found = some (.staticMethod box (.function f)) := by
  unfold isStaticFunction
  split <;> simp_all

/-! ## The first thing in the way -/

theorem gate_eq (settings : Settings) (h : Heap) (shape : SiteShape) (t : TypeRef) :
    gate settings h shape t = Refusal.first? (h.gateObjections settings shape t) := by
  simp only [gate, gateObjections, isFound_slot, Refusal.first?_cons, Refusal.first?_nil,
    decide_eq_true_eq]

theorem initializer?_cases (h : Heap) (s : Signature) (t : TypeRef) :
    (∃ f, h.initializer? s t = .ok f) ∧ Refusal.first? (h.initObjections s t) = none ∨
    ∃ reason, h.initializer? s t = .error reason ∧
      Refusal.first? (h.initObjections s t) = some reason := by
  simp only [initObjections, Refusal.first?_cons, Refusal.first?_nil]
  unfold initializer?
  split
  · rename_i standard
    rw [slot_init_eq_standard_iff] at standard
    simp only [slot_new_eq_standard_iff, standard]
    by_cases hargs : s.arity ≠ 0 ∧ h.standardNew t = true
    · simp [hargs]
    · refine Or.inl ⟨⟨none, if_neg hargs⟩, ?_⟩
      rw [if_neg (by simpa [and_comm] using hargs)]
      rfl
  · rename_i f user
    have found := slot_init_eq_user_iff.mp user
    simp [standardInit, isFunction, found]
  · rename_i hstandard huser
    have standard : h.standardInit t = false := by
      rw [← Bool.not_eq_true, ← slot_init_eq_standard_iff]
      exact hstandard
    have function : isFunction (h.lookup t "__init__") = false := by
      rw [← Bool.not_eq_true, isFunction_iff]
      rintro ⟨f, found⟩
      exact huser f (slot_init_eq_user_iff.mpr found)
    simp [standard, function]

theorem maker?_cases (h : Heap) (t : TypeRef) :
    (∃ m, h.maker? t = .ok m) ∧ Refusal.first? (h.newObjections t) = none ∨
    ∃ reason, h.maker? t = .error reason ∧ Refusal.first? (h.newObjections t) = some reason := by
  simp only [newObjections, Refusal.first?_cons, Refusal.first?_nil]
  unfold maker? Specializer.directAllocator
  split
  · rename_i standard
    rw [slot_new_eq_standard_iff] at standard
    unfold layoutOf
    cases (h.layoutAt (h.typeAt t).layout).hasSoleAllocator <;> simp [standard]
  · rename_i box f user
    have found := slot_new_eq_user_iff.mp user
    simp [standardNew, isStaticFunction, found]
  · rename_i hstandard huser
    have standard : h.standardNew t = false := by
      rw [← Bool.not_eq_true, ← slot_new_eq_standard_iff]
      exact hstandard
    have static : isStaticFunction (h.lookup t "__new__") = false := by
      rw [← Bool.not_eq_true, isStaticFunction_iff]
      rintro ⟨box, f, found⟩
      exact huser box f (slot_new_eq_user_iff.mpr found)
    simp [standard, static]

theorem recipe_cases (valid : settings.Valid) (h : Heap) (shape : SiteShape) (t : TypeRef) :
    (∃ r, h.recipe settings shape t = .ok r) ∧
      Refusal.first? (h.objections settings shape t) = none ∨
    ∃ reason, h.recipe settings shape t = .error (.refusal reason) ∧
      Refusal.first? (h.objections settings shape t) = some reason := by
  unfold recipe objections
  rw [Refusal.first?_append, Refusal.first?_append, ← gate_eq]
  cases passed : gate settings h shape t with
  | some reason => exact Or.inr ⟨reason, rfl, rfl⟩
  | none =>
    obtain ⟨-, -, -, -, cap, -⟩ := gate_eq_none_iff.mp passed
    have harity : shape.signature.arity ≤ arityLimit := cap.trans valid
    unfold construction? Arity.ofNat
    rw [dif_pos harity]
    rcases initializer?_cases h shape.signature t with ⟨⟨f, hf⟩, hfirst⟩ | ⟨reason, hf, hfirst⟩
    · rcases maker?_cases h t with ⟨⟨m, hm⟩, hnone⟩ | ⟨reason, hm, hsome⟩
      · exact Or.inl ⟨⟨⟨m, f⟩, by simp [hf, hm]⟩, by simp [hfirst, hnone]⟩
      · exact Or.inr ⟨reason, by simp [hf, hm], by simp [hfirst, hsome]⟩
    · exact Or.inr ⟨reason, by simp [hf], by simp [hfirst]⟩

/-! ## Nothing in the way -/

theorem first?_gate_eq_none_iff : Refusal.first? (h.gateObjections settings shape t) = none ↔
    settings.enabled = true ∧ (h.typeAt t).flags.system = false ∧
      (h.typeAt t).flags.mixed = false ∧ (∀ u ∈ h.line t, h.ownAttr u "__del__" = none) ∧
      shape.signature.arity ≤ settings.maxArity ∧ shape.typed = false ∧
      (h.typeAt t).metaclass = none := by
  rw [← gate_eq, gate_eq_none_iff, isFound_slot]
  simp only [List.any_eq_false, Option.not_isSome_iff_eq_none]

theorem first?_init_eq_none_iff : Refusal.first? (h.initObjections s t) = none ↔
    ¬ (h.standardInit t = true ∧ h.standardNew t = true ∧ 0 < s.arity) ∧
      (h.standardInit t = true ∨ isFunction (h.lookup t "__init__") = true) := by
  rw [Refusal.first?_eq_none_iff, initObjections]
  cases h.standardInit t <;> simp [Nat.pos_iff_ne_zero]

theorem first?_new_eq_none_iff : Refusal.first? (h.newObjections t) = none ↔
    (h.standardNew t = true ∨ isStaticFunction (h.lookup t "__new__") = true) ∧
      (h.standardNew t = true → (h.layoutOf t).hasSoleAllocator = true) := by
  rw [Refusal.first?_eq_none_iff, newObjections]
  cases h.standardNew t <;> simp

theorem eligible_iff : h.Eligible settings shape t ↔
    Refusal.first? (h.objections settings shape t) = none := by
  unfold objections
  rw [Refusal.first?_append, Refusal.first?_append, Option.or_eq_none_iff, Option.or_eq_none_iff,
    first?_gate_eq_none_iff, first?_init_eq_none_iff, first?_new_eq_none_iff, isFunction_iff,
    isStaticFunction_iff, standardInit, standardNew, Engine.hasSoleAllocator_iff]
  simp only [decide_eq_true_iff]
  constructor
  · rintro ⟨enabled, system, mixed, del, arity, dynamic, metaclass, init, new, used⟩
    refine ⟨⟨⟨enabled, system, mixed, del, arity, dynamic, metaclass⟩, used, init⟩, ?_, ?_⟩
    · exact new.elim Or.inr fun ⟨found, _⟩ => Or.inl found
    · rintro standard
      rcases new with ⟨box, f, found⟩ | ⟨-, sole⟩
      · simp [found] at standard
      · exact sole
  · rintro ⟨⟨⟨enabled, system, mixed, del, arity, dynamic, metaclass⟩, used, init⟩, new, sole⟩
    refine ⟨enabled, system, mixed, del, arity, dynamic, metaclass, init, ?_, used⟩
    exact new.elim (fun found => Or.inr ⟨found, sole found⟩) Or.inl

end Heap

/-! ## Requests -/

namespace History

variable {o : Usage} {H : History} {s : SpecializerRef}

/-- A request always has an answer. It gives a shortcut exactly if construction of the type may be
cut short, else it names the first thing in the way: what is cached makes no difference. The
shortcut has the version of the type and the arity of the call, and runs what the slots hold. -/
theorem request_decides (hr : Reachable o H) (fits : H.heap.Fits)
    (has : H.caches.HasSpecializer s) (shape : SiteShape) (t : TypeRef) :
    ∃ answer c, Caches.request H.heap s shape t H.caches = .ok answer c ∧
      ((∃ k, answer = .ok k) ↔ H.heap.Eligible (H.caches.settings s) shape t) ∧
      (∀ reason, answer = .error reason ↔
        Refusal.first? (H.heap.objections (H.caches.settings s) shape t) = some reason) ∧
      ∀ k, answer = .ok k →
        (c.shortcutAt k).version = (H.heap.typeAt t).version ∧
        (c.shortcutAt k).arity.count = shape.signature.arity ∧
        (H.withCaches c).Resolves k shape.signature t := by
  obtain ⟨answer, c, -, hanswer, -⟩ := Caches.request_counts has H.heap shape t
  refine ⟨answer, c, hanswer, ?_⟩
  have valid : (H.caches.settings s).Valid := (H.caches.specializerAt s).valid
  have answered := Caches.request_spec hr.sane.sound hr.sane.hierarchy s shape t
  rw [hanswer] at answered
  cases answer with
  | error reason =>
    have refused : H.heap.recipe (H.caches.settings s) shape t = .error (.refusal reason) := by
      cases answered with
      | refused _ _ right => exact right fits
    rcases Heap.recipe_cases valid H.heap shape t with ⟨⟨r, hr⟩, -⟩ | ⟨first, hr, hfirst⟩
    · simp [hr] at refused
    · obtain rfl : first = reason := by simpa [hr] using refused
      simp [Heap.eligible_iff, hfirst]
  | ok k =>
    obtain ⟨hversion, r, hrecipe, realizes⟩ := hr.granted fits has hanswer
    rcases Heap.recipe_cases valid H.heap shape t with ⟨-, hfirst⟩ | ⟨first, hr, -⟩
    · refine ⟨by simp [Heap.eligible_iff, hfirst], by simp [hfirst], ?_⟩
      rintro k' hk
      obtain rfl : k = k' := by simpa using hk
      exact ⟨hversion.symm, realizes.arity, resolves_of_realizes hrecipe realizes⟩
    · simp [hr] at hrecipe

theorem sample_decides : sample.heap.Fits ∧ sample.caches.HasSpecializer .shared ∧
    (∃ k c, Caches.request sample.heap .shared sampleGrant.shape ⟨1⟩ sample.caches =
      .ok (.ok k) c ∧ (sample.withCaches c).Resolves k (.plain 0) ⟨1⟩) ∧
    ∃ c, Caches.request sample.heap .shared { signature := .plain 6 } ⟨1⟩ sample.caches =
      .ok (.error (.arityOverCap 6 5)) c := by
  have fits : sample.heap.Fits := by decide +kernel
  have has : sample.caches.HasSpecializer .shared := by decide +kernel
  have hr := sample_reachable (o := fun _ _ => True) trivial
  refine ⟨fits, has, ?_, ?_⟩
  · obtain ⟨answer, c, hanswer, given, -, right⟩ :=
      request_decides hr fits has sampleGrant.shape ⟨1⟩
    have eligible : sample.heap.Eligible (sample.caches.settings .shared) sampleGrant.shape ⟨1⟩ :=
      Heap.eligible_iff.mpr (by decide +kernel)
    obtain ⟨k, rfl⟩ := given.mpr eligible
    exact ⟨k, c, hanswer, (right k rfl).2.2⟩
  · obtain ⟨answer, c, hanswer, -, refused, -⟩ :=
      request_decides hr fits has { signature := .plain 6 } ⟨1⟩
    obtain rfl := (refused (.arityOverCap 6 5)).mpr (by decide +kernel)
    exact ⟨c, hanswer⟩

end History

end InlineCache
