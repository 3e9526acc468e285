import InlineCache.Proofs.Fitted
import InlineCache.Proofs.LeftOver

/-! # What a refusal leaves behind

A request that is refused files nothing and counts one refusal. One thing may be left over. The
relay for the user's `__init__` is made before `__new__` is looked at, so where `__new__` is in the
way that relay was made for nothing. Nobody keeps it alive, and the next request makes another. -/

namespace InlineCache

namespace Caches

variable {c c' c₁ : Caches} {h : Heap} {s : SpecializerRef} {t : TypeRef} {shape : SiteShape}
  {reason : Refusal}

/-! ## Requests that are refused -/

/-- The reason why nothing can make the object, if there is one. -/
def newRefusal? (c : Caches) (h : Heap) (s : SpecializerRef) (t : TypeRef) : Option Refusal :=
  match h.slot t .new with
  | .standard =>
    if (c.allocatorFor h s (h.typeAt t).layout).1.isNone then some .noNativeAllocator else none
  | .user (.staticMethod _ (.function _)) => none
  | _ => some .unsupportedNew

/-- Once it was looked for what makes the object, in vain. -/
def searched (c : Caches) (h : Heap) (s : SpecializerRef) (t : TypeRef) : Caches :=
  match h.slot t .new with
  | .standard => (c.allocatorFor h s (h.typeAt t).layout).2
  | _ => c

/-- Once the relay for `__init__` was asked for, if there is one to ask for. -/
def prepared (c : Caches) (s : SpecializerRef) (shape : SiteShape) : Option FunctionRef → Caches
  | none => c
  | some f => (c.relayFor s f shape.withReceiver []).2

def opened (c : Caches) (h : Heap) (s : SpecializerRef) (t : TypeRef) : Caches :=
  c.openShelf s (h.layoutOf t).id

theorem allocationFor_refused_iff (shape : SiteShape) (i : Option RelayRef) :
    allocationFor h s shape t i c = .error (.refusal reason) c' ↔
      c.newRefusal? h s t = some reason ∧ c' = c.searched h s t := by
  rw [allocationFor_eq]
  unfold newRefusal? searched
  cases h.slot t .new with
  | standard =>
    cases hfound : c.allocatorFor h s (h.typeAt t).layout with
    | mk l? c₁ => cases l? <;> simp [eq_comm]
  | user v =>
    cases v with
    | staticMethod box inner => cases inner <;> simp [eq_comm]
    | _ => simp [eq_comm]
  | notFound => simp [eq_comm]
  | unsupported v => simp [eq_comm]

theorem initializerFor_prepared (h : Heap) (s : SpecializerRef) (shape : SiteShape) (t : TypeRef)
    (c : Caches) : initializerFor h s shape t c =
      match h.initializer? shape.signature t with
      | .error reason => .error (.refusal reason) c
      | .ok f? =>
        .ok (f?.map fun f => (c.relayFor s f shape.withReceiver []).1) (c.prepared s shape f?) := by
  rw [initializerFor_eq]
  cases h.initializer? shape.signature t with
  | error reason => rfl
  | ok f? => cases f? <;> rfl

theorem build_refused_iff : build h s shape t c = .error (.refusal reason) c' ↔
    shape.signature.arity ≤ arityLimit ∧
      (h.initializer? shape.signature t = .error reason ∧ c' = c ∨
        ∃ f?, h.initializer? shape.signature t = .ok f? ∧
          (c.prepared s shape f?).newRefusal? h s t = some reason ∧
          c' = (c.prepared s shape f?).searched h s t) := by
  rw [build_eq, initializerFor_prepared]
  unfold Arity.ofNat
  by_cases harity : shape.signature.arity ≤ arityLimit
  · rw [dif_pos harity]
    dsimp only
    cases hinit : h.initializer? shape.signature t with
    | error fault => simp [harity, eq_comm]
    | ok f? =>
      dsimp only
      generalize f?.map _ = i
      simp only [Except.ok.injEq, exists_eq_left', harity, true_and, reduceCtorEq, false_and,
        false_or, ← allocationFor_refused_iff shape i]
      cases allocationFor h s shape t i (c.prepared s shape f?) <;> simp
  · simp [harity]

/-- A request is refused at the gate, or else where a shortcut would have to be built. -/
theorem request_refused_iff : request h s shape t c = .ok (.error reason) c' ↔
    gate (c.settings s) h shape t = some reason ∧ c' = c.count s .ineligible ∨
      gate (c.settings s) h shape t = none ∧
        (c.opened h s t).current? s (h.layoutOf t).id ⟨(h.typeAt t).id, shape.signature⟩
          (h.typeAt t).version = none ∧
        ∃ c₁, build h s shape t (c.opened h s t) = .error (.refusal reason) c₁ ∧
          c' = c₁.count s .ineligible := by
  unfold request opened
  cases gate (c.settings s) h shape t with
  | some fault => simp [eq_comm]
  | none =>
    dsimp only
    generalize c.openShelf s (h.layoutOf t).id = c₀
    cases c₀.current? s (h.layoutOf t).id ⟨(h.typeAt t).id, shape.signature⟩
      (h.typeAt t).version with
    | some k => simp
    | none =>
      cases build h s shape t c₀ with
      | ok k c₁ => simp
      | error o c₁ => cases o <;> simp [eq_comm, and_comm]

/-! ## What the steps leave alone -/

theorem opened_untouched (c : Caches) (h : Heap) (s : SpecializerRef) (t : TypeRef) :
    Untouched s c (c.opened h s t) := openShelf_untouched c s _

theorem searched_untouched (c : Caches) (h : Heap) (s : SpecializerRef) (t : TypeRef) :
    Untouched s c (c.searched h s t) := by
  unfold searched
  split
  · exact allocatorFor_untouched c h s _
  · exact .refl s c

theorem counters_searched (vain : c.newRefusal? h s t = some reason) :
    (c.searched h s t).counters s = c.counters s := by
  unfold newRefusal? at vain
  unfold searched
  split at vain
  · rename_i standard
    split at vain
    · rename_i hnone
      rw [standard]
      exact counters_allocatorFor _ (Option.isNone_iff_eq_none.mp hnone)
    · cases vain
  · cases vain
  · split
    · rename_i standard _ _ hslot
      exact absurd hslot standard
    · rfl

theorem prepared_prepares (c : Caches) (s : SpecializerRef) (shape : SiteShape)
    (f? : Option FunctionRef) : Prepares c (c.prepared s shape f?) := by
  cases f? with
  | none => exact .refl c
  | some f =>
    rw [prepared, relayFor_eq]
    split
    · exact .refl c
    · exact (remember_prepares c s f _).trans (sweep_prepares _ s _)

theorem shelf_prepared (c : Caches) (s : SpecializerRef) (shape : SiteShape)
    (f? : Option FunctionRef) (l : LayoutId) : (c.prepared s shape f?).shelf s l = c.shelf s l := by
  have modified : ∀ (c : Caches) (g : Specializer → Specializer),
      (∀ p, (g p).shelves = p.shelves) → (c.modifySpecializer s g).shelf s l = c.shelf s l := by
    intro c g hg
    unfold shelf
    rw [specializerAt_modifySpecializer]
    split
    · rw [hg]
    · rfl
  cases f? with
  | none => rfl
  | some f =>
    rw [prepared, relayFor_eq]
    split
    · rfl
    · have remembered : (c.remember s f shape.withReceiver).shelf s l = c.shelf s l := by
        rw [remember, modified, shelf_count]
        · rfl
        · exact fun _ => rfl
      rw [← remembered]
      unfold sweep
      dsimp only
      split
      · rfl
      · rw [modified]
        exact fun _ => rfl

theorem newRefusal?_congr (same : (c'.allocatorFor h s (h.typeAt t).layout).1 =
    (c.allocatorFor h s (h.typeAt t).layout).1) :
    c'.newRefusal? h s t = c.newRefusal? h s t := by
  unfold newRefusal?
  rw [same]

theorem newRefusal?_of_shelf (same : ∀ l, c'.shelf s l = c.shelf s l) :
    c'.newRefusal? h s t = c.newRefusal? h s t :=
  newRefusal?_congr (by rw [allocatorFor_fst, allocatorFor_fst, same])

theorem newRefusal?_opened : (c.opened h s t).newRefusal? h s t = c.newRefusal? h s t :=
  newRefusal?_of_shelf fun _ => shelf_openShelf c s _ _

theorem newRefusal?_prepared (f? : Option FunctionRef) :
    (c.prepared s shape f?).newRefusal? h s t = c.newRefusal? h s t :=
  newRefusal?_of_shelf fun _ => shelf_prepared c s shape f? _

theorem newRefusal?_searched (has : c.HasSpecializer s) :
    (c.searched h s t).newRefusal? h s t = c.newRefusal? h s t := by
  unfold searched
  split
  · exact newRefusal?_congr (allocatorFor_again has _)
  · rfl

theorem newRefusal?_count (n : Counter) :
    (c.count s n).newRefusal? h s t = c.newRefusal? h s t :=
  newRefusal?_of_shelf fun _ => shelf_count c s s _ n

theorem Prepares.current? (p : Prepares c c') (l : LayoutId) (key : ShortcutKey)
    (version : Version) : c'.current? s l key version = c.current? s l key version := by
  unfold Caches.current?
  rw [p.filed]
  simp only [p.shortcutAt]

theorem Prepares.has (p : Prepares c c') (has : c.HasSpecializer s) : c'.HasSpecializer s :=
  has.trans_le p.grows.specializers

/-! ## What is left over -/

end Caches

/-- The counters after so many refusals; `waste` is whether a relay was made on each. -/
def Counters.refused (k : Counters) (n : Nat) (waste : Bool) : Counters :=
  { k with
    ineligible := k.ineligible + .ofNat n
    adapterBuilds := k.adapterBuilds + if waste then .ofNat n else 0 }

/-- The reason lies in what makes the object. -/
def Refusal.concernsNew : Refusal → Bool
  | .unsupportedNew | .noNativeAllocator => true
  | _ => false

/-- The function that the type has as its `__init__`, if it is one of the user's. -/
def Heap.userInit? (h : Heap) (t : TypeRef) : Option FunctionRef :=
  match h.slot t .init with
  | .user (.function f) => some f
  | _ => none

theorem Heap.userInit?_of_initializer? {h : Heap} {s : Signature} {t : TypeRef}
    {f? : Option FunctionRef} (hinit : h.initializer? s t = .ok f?) : h.userInit? t = f? := by
  unfold userInit?
  cases f? with
  | none => rw [(initializer?_eq_none_iff.mp hinit).1]
  | some f => rw [initializer?_eq_some_iff.mp hinit]

theorem not_concernsNew_of_gate {settings : Settings} {h : Heap} {shape : SiteShape} {t : TypeRef}
    {reason : Refusal} (hgate : gate settings h shape t = some reason) :
    reason.concernsNew = false := by
  unfold gate at hgate
  grind [Refusal.concernsNew]

theorem Heap.not_concernsNew_of_initializer? {h : Heap} {s : Signature} {t : TypeRef}
    {reason : Refusal} (hinit : h.initializer? s t = .error reason) :
    reason.concernsNew = false := by
  unfold initializer? at hinit
  grind [Refusal.concernsNew]

namespace Caches

variable {c c' c₁ : Caches} {h : Heap} {s : SpecializerRef} {t : TypeRef} {shape : SiteShape}
  {f : FunctionRef} {reason : Refusal}

theorem concernsNew_of_newRefusal? (vain : c.newRefusal? h s t = some reason) :
    reason.concernsNew = true := by
  unfold newRefusal? at vain
  grind [Refusal.concernsNew]

/-- The `__init__` that a relay is made for although the request is refused. -/
def wasted? (c : Caches) (h : Heap) (s : SpecializerRef) (shape : SiteShape) (t : TypeRef)
    (reason : Refusal) : Option FunctionRef :=
  if reason.concernsNew then
    (h.userInit? t).filter fun f =>
      (c.remembered? s ⟨f, shape.withReceiver.signature⟩ []).isNone
  else none

theorem wasted?_of_not_concernsNew (other : reason.concernsNew = false) :
    c.wasted? h s shape t reason = none := by
  rw [wasted?, if_neg (by simp [other])]

theorem Untouched.wasted? (u : Untouched s c c') :
    c'.wasted? h s shape t reason = c.wasted? h s shape t reason := by
  unfold Caches.wasted?
  simp only [u.remembered?]

/-- What a refusal does to the caches; `waste` is the `__init__` that a relay is made for. -/
structure Leaves (s : SpecializerRef) (shape : SiteShape) (waste : Option FunctionRef)
    (c c' : Caches) : Prop where
  caches : match waste with
    | none => Untouched s c c'
    | some f => LeftOver s f shape.withReceiver c c'
  counters : c'.counters s = (c.counters s).refused 1 waste.isSome

theorem Leaves.prepares {waste : Option FunctionRef} (leaves : Leaves s shape waste c c') :
    Prepares c c' := by
  obtain ⟨caches, -⟩ := leaves
  cases waste with
  | none => exact caches.toPrepares
  | some f => exact caches.toPrepares

theorem leaves_count (has : c.HasSpecializer s) (u : Untouched s c c₁)
    (same : c₁.counters s = c.counters s) : Leaves s shape none c (c₁.count s .ineligible) := by
  refine ⟨u.trans (count_untouched c₁ s _), ?_⟩
  rw [counters_record, if_pos ⟨rfl, u.toPrepares.has has⟩, same]
  simp [Counters.refused, Counters.record]

theorem leaves_count_waste (has : c.HasSpecializer s)
    (l : LeftOver s f shape.withReceiver c c₁)
    (more : c₁.counters s = (c.counters s).record .adapterBuilds) :
    Leaves s shape (some f) c (c₁.count s .ineligible) := by
  refine ⟨l.untouched (count_untouched c₁ s _), ?_⟩
  rw [counters_record, if_pos ⟨rfl, l.toPrepares.has has⟩, more]
  simp [Counters.refused, Counters.record]

theorem leaves_prepared (has : c.HasSpecializer s) {f? : Option FunctionRef}
    (hinit : h.initializer? shape.signature t = .ok f?)
    (vain : (c.prepared s shape f?).newRefusal? h s t = some reason) :
    Leaves s shape (c.wasted? h s shape t reason) c
      (((c.prepared s shape f?).searched h s t).count s .ineligible) := by
  have search := searched_untouched (c.prepared s shape f?) h s t
  have silent := counters_searched vain
  rw [wasted?, if_pos (concernsNew_of_newRefusal? vain), Heap.userInit?_of_initializer? hinit]
  cases f? with
  | none => exact leaves_count has search silent
  | some f =>
    cases known : c.remembered? s ⟨f, shape.withReceiver.signature⟩ [] with
    | some r =>
      have same : c.prepared s shape (some f) = c := by rw [prepared, relayFor_eq, known]
      rw [same] at search silent ⊢
      simpa [Option.filter, known] using leaves_count has search silent
    | none =>
      obtain ⟨leftOver, more⟩ := relayFor_leftOver has known
      simpa [Option.filter, known] using
        leaves_count_waste has (leftOver.untouched search) (silent.trans more)

theorem request_leaves (has : c.HasSpecializer s)
    (refused : request h s shape t c = .ok (.error reason) c') :
    Leaves s shape (c.wasted? h s shape t reason) c c' := by
  rcases request_refused_iff.mp refused with ⟨hgate, rfl⟩ | ⟨-, -, c₁, hbuild, rfl⟩
  · rw [wasted?_of_not_concernsNew (not_concernsNew_of_gate hgate)]
    exact leaves_count has (.refl s c) rfl
  · have opens := opened_untouched c h s t
    have silent : (c.opened h s t).counters s = c.counters s := counters_openShelf c s _
    obtain ⟨-, ⟨hinit, rfl⟩ | ⟨f?, hinit, vain, rfl⟩⟩ := build_refused_iff.mp hbuild
    · rw [wasted?_of_not_concernsNew (Heap.not_concernsNew_of_initializer? hinit)]
      exact leaves_count has opens silent
    · have leaves := leaves_prepared (opens.toPrepares.has has) hinit vain
      rw [opens.wasted?] at leaves
      generalize c.wasted? h s shape t reason = waste at leaves ⊢
      obtain ⟨caches, counters⟩ := leaves
      rw [silent] at counters
      cases waste with
      | none => exact ⟨opens.trans caches, counters⟩
      | some f => exact ⟨opens.leftOver caches, counters⟩

/-! ## Asking again -/

/-- The caches once the same request was made `n` times. -/
def asked (c : Caches) (h : Heap) (s : SpecializerRef) (shape : SiteShape) (t : TypeRef)
    (n : Nat) : Caches :=
  (fun c => final (request h s shape t c))^[n] c

theorem refused_iff : (∃ c', request h s shape t c = .ok (.error reason) c') ↔
    gate (c.settings s) h shape t = some reason ∨
      gate (c.settings s) h shape t = none ∧
        c.current? s (h.layoutOf t).id ⟨(h.typeAt t).id, shape.signature⟩
          (h.typeAt t).version = none ∧ shape.signature.arity ≤ arityLimit ∧
        (h.initializer? shape.signature t = .error reason ∨
          (∃ f?, h.initializer? shape.signature t = .ok f?) ∧
            c.newRefusal? h s t = some reason) := by
  simp only [request_refused_iff, build_refused_iff, newRefusal?_prepared, newRefusal?_opened,
    (opened_untouched c h s t).toPrepares.current?]
  grind

theorem newRefusal?_refused (has : c.HasSpecializer s)
    (refused : request h s shape t c = .ok (.error reason) c') :
    c'.newRefusal? h s t = c.newRefusal? h s t := by
  rcases request_refused_iff.mp refused with ⟨-, rfl⟩ | ⟨-, -, c₁, hbuild, rfl⟩
  · exact newRefusal?_count _
  · obtain ⟨-, ⟨-, rfl⟩ | ⟨f?, -, -, rfl⟩⟩ := build_refused_iff.mp hbuild
    · rw [newRefusal?_count, newRefusal?_opened]
    · have has' : ((c.opened h s t).prepared s shape f?).HasSpecializer s :=
        (prepared_prepares _ s shape f?).has ((opened_untouched c h s t).toPrepares.has has)
      rw [newRefusal?_count, newRefusal?_searched has', newRefusal?_prepared, newRefusal?_opened]

theorem refused_again (has : c.HasSpecializer s)
    (refused : request h s shape t c = .ok (.error reason) c') :
    ∃ c'', request h s shape t c' = .ok (.error reason) c'' := by
  have p := (request_leaves has refused).prepares
  have once := refused_iff.mp ⟨c', refused⟩
  rw [refused_iff, p.grows.settings s has, p.current?, newRefusal?_refused has refused]
  exact once

/-- What was left over once is left over again: nobody keeps it. -/
theorem wasted?_again (exist : ∀ r, c.Lives [] r → c.HasRelay r)
    (leaves : Leaves s shape (c.wasted? h s shape t reason) c c') :
    c'.wasted? h s shape t reason = c.wasted? h s shape t reason := by
  cases waste : c.wasted? h s shape t reason with
  | none =>
    rw [waste] at leaves
    rw [Untouched.wasted? leaves.caches, waste]
  | some f =>
    rw [waste] at leaves
    have leftOver : LeftOver s f shape.withReceiver c c' := leaves.caches
    have dead : c'.remembered? s ⟨f, shape.withReceiver.signature⟩ [] = none := by
      refine Option.eq_none_iff_forall_ne_some.mpr fun r hr => ?_
      obtain ⟨found, lives⟩ := remembered?_eq_some_iff.mp hr
      obtain rfl : ⟨c.relays.size⟩ = r := Option.some.inj (leftOver.new.symm.trans found)
      exact Nat.lt_irrefl _ (exist _ (leftOver.lives_iff.mp lives))
    unfold wasted? at waste ⊢
    split at waste
    · rename_i concerns
      rw [Option.filter_eq_some_iff] at waste
      rw [if_pos concerns, waste.1, Option.filter_some, dead]
      rfl
    · cases waste

theorem Leaves.exist {waste : Option FunctionRef} (leaves : Leaves s shape waste c c')
    (exist : ∀ r, c.Lives [] r → c.HasRelay r) : ∀ r, c'.Lives [] r → c'.HasRelay r := by
  intro r lives
  refine Nat.lt_of_lt_of_le (exist r ?_) leaves.prepares.grows.relays
  cases waste with
  | none => exact (Untouched.lives_iff leaves.caches).mp lives
  | some f => exact (LeftOver.lives_iff leaves.caches).mp lives

theorem refused_add (k : Counters) (n m : Nat) (waste : Bool) :
    (k.refused n waste).refused m waste = k.refused (n + m) waste := by
  cases waste <;> simp [Counters.refused, UInt64.ofNat_add, UInt64.add_assoc]

/-- The request was refused `n` times so far, and will be refused once more. -/
structure Steady (c : Caches) (h : Heap) (s : SpecializerRef) (shape : SiteShape) (t : TypeRef)
    (reason : Refusal) (n : Nat) : Prop where
  refused : ∃ c', request h s shape t (c.asked h s shape t n) = .ok (.error reason) c'
  exist : ∀ r, (c.asked h s shape t n).Lives [] r → (c.asked h s shape t n).HasRelay r
  wasted? : (c.asked h s shape t n).wasted? h s shape t reason = c.wasted? h s shape t reason
  prepares : Prepares c (c.asked h s shape t n)
  counters : (c.asked h s shape t n).counters s =
    (c.counters s).refused n (c.wasted? h s shape t reason).isSome
  untouched : c.wasted? h s shape t reason = none → Untouched s c (c.asked h s shape t n)

theorem steady (has : c.HasSpecializer s) (exist : ∀ r, c.Lives [] r → c.HasRelay r)
    (refused : request h s shape t c = .ok (.error reason) c') (n : Nat) :
    Steady c h s shape t reason n := by
  induction n with
  | zero =>
    refine ⟨⟨c', refused⟩, exist, rfl, .refl c, ?_, fun _ => .refl s c⟩
    simp [asked, Counters.refused]
  | succ n ih =>
    obtain ⟨c₁, again⟩ := ih.refused
    have hasₙ := ih.prepares.has has
    have next : c.asked h s shape t (n + 1) = c₁ := by
      rw [asked, Function.iterate_succ_apply']
      exact congrArg final again
    have leaves := request_leaves hasₙ again
    have same := wasted?_again ih.exist leaves
    rw [ih.wasted?] at leaves same
    constructor <;> rw [next]
    · exact refused_again hasₙ again
    · exact leaves.exist ih.exist
    · exact same
    · exact ih.prepares.trans leaves.prepares
    · rw [leaves.counters, ih.counters, refused_add]
    · intro unwasted
      have step := leaves.caches
      rw [unwasted] at step
      exact (ih.untouched unwasted).trans step

/-- What a request that is refused leaves behind. Nothing is ever filed, and only the refusal is
counted, but where `__new__` is in the way of a type with an `__init__` of the user's whose relay is
not there, that relay is made and counted too. The same request is refused for the same reason
however often it is made, and makes that relay each time. -/
theorem refusal_leaves (has : c.HasSpecializer s)
    (refused : request h s shape t c = .ok (.error reason) c') :
    Leaves s shape (c.wasted? h s shape t reason) c c' ∧
      ((∀ r, c.Lives [] r → c.HasRelay r) → ∀ n,
        (∃ c'', request h s shape t (c.asked h s shape t n) = .ok (.error reason) c'') ∧
        Prepares c (c.asked h s shape t n) ∧
        (c.asked h s shape t n).counters s =
          (c.counters s).refused n (c.wasted? h s shape t reason).isSome ∧
        (c.wasted? h s shape t reason = none → Untouched s c (c.asked h s shape t n))) := by
  refine ⟨request_leaves has refused, fun exist n => ?_⟩
  have steady := steady has exist refused n
  exact ⟨steady.refused, steady.prepares, steady.counters, steady.untouched⟩

/-- Type 1 has a function as its `__init__` and another one as its `__new__`, where a static method
would be needed. -/
def stuck : Heap :=
  { Heap.initial with functions := #[⟨"__init__", ["self"], false⟩, ⟨"__new__", ["cls"], false⟩] }
    |>.tryDefine
      { name := "A", attrs := [("__new__", .function ⟨1⟩), ("__init__", .function ⟨0⟩)] }

theorem stuck_refused : ∃ c', request stuck .shared { signature := .plain 0 } ⟨1⟩ .initial =
    .ok (.error .unsupportedNew) c' := by
  refine refused_iff.mpr (Or.inr ⟨?_, ?_, by decide, Or.inr ⟨⟨some ⟨0⟩, ?_⟩, ?_⟩⟩) <;>
    decide +kernel

theorem lives_initial (r : RelayRef) : ¬ Caches.initial.Lives [] r := by
  have nothing : Caches.initial.live [] = [] := by decide +kernel
  rw [← isLive_iff, isLive, nothing]
  simp

/-- Three refusals make three relays, and one of them is remembered. -/
theorem stuck_leaves :
    (∃ c', request stuck .shared { signature := .plain 0 } ⟨1⟩ .initial =
        .ok (.error .unsupportedNew) c' ∧
      LeftOver .shared ⟨0⟩ { signature := .plain 1 } .initial c') ∧
    ((Caches.initial.asked stuck .shared { signature := .plain 0 } ⟨1⟩ 3).counters
      .shared).adapterBuilds = 3 := by
  obtain ⟨c', refused⟩ := stuck_refused
  have waste : Caches.initial.wasted? stuck .shared { signature := .plain 0 } ⟨1⟩
      .unsupportedNew = some ⟨0⟩ := by decide +kernel
  obtain ⟨leaves, again⟩ := refusal_leaves (by decide) refused
  obtain ⟨-, -, counters, -⟩ := again (fun r lives => absurd lives (lives_initial r)) 3
  rw [waste] at leaves counters
  exact ⟨⟨c', refused, leaves.caches⟩, congrArg Counters.adapterBuilds counters⟩

/-- A refusal that leaves an entry behind and counts a build, and does so each time. -/
theorem stuck_builds :
    (∃ c', request stuck .shared { signature := .plain 0 } ⟨1⟩ .initial =
      .ok (.error .unsupportedNew) c') ∧
    (∀ n < 3, ((Caches.initial.asked stuck .shared { signature := .plain 0 } ⟨1⟩ n).counters
      .shared).adapterBuilds = .ofNat n) ∧
    (Caches.initial.relayTable .shared).size = 0 ∧
    ((Caches.initial.asked stuck .shared { signature := .plain 0 } ⟨1⟩ 1).relayTable
      .shared).size = 1 :=
  ⟨stuck_refused, by decide +kernel, by decide +kernel, by decide +kernel⟩

end Caches

/-! ## In every run -/

namespace History

variable {o : Usage} {H : History} {s : SpecializerRef} {shape : SiteShape} {t : TypeRef}
  {reason : Refusal} {c' : Caches}

theorem Reachable.hasRelay_of_lives (hr : Reachable o H)
    (held : ∀ r ∈ H.caches.held.relays, H.caches.HasRelay r) {r : RelayRef}
    (lives : H.caches.Lives [] r) : H.caches.HasRelay r := by
  cases lives with
  | hand hand => exact absurd hand List.not_mem_nil
  | held hr => exact held r hr
  | root root through => exact (hr.fitted _ r through).has
  | target lives own aim through => exact (hr.fitted _ r through).has

/-- Whatever happened before, a request that is refused is refused for the same reason however often
it is made, and leaves the same behind each time. -/
theorem Reachable.steady_of_refused (hr : Reachable o H)
    (held : ∀ r ∈ H.caches.held.relays, H.caches.HasRelay r) (has : H.caches.HasSpecializer s)
    (refused : Caches.request H.heap s shape t H.caches = .ok (.error reason) c') (n : Nat) :
    Caches.Steady H.caches H.heap s shape t reason n :=
  Caches.steady has (fun _ => hr.hasRelay_of_lives held) refused n

end History

end InlineCache
