import InlineCache.Proofs.Construction
import InlineCache.Proofs.Service
import InlineCache.Proofs.Signatures

/-! # Starred arguments that are no tuples

A starred argument has to be a tuple. The general protocol looks before it enters anything, and so
does a shortcut that starts with the user's `__new__`. A shortcut that starts with a native
constructor runs the constructor first. -/

namespace InlineCache

/-- The call passes `v` as a star, in the last place, and `v` is no tuple. -/
structure BadStar (s : Signature) (args : List Value) (v : Value) : Prop where
  valid : Signature.fault? [] s.kinds = none
  star : s.hasStar = true
  length : args.length = s.arity
  last : args.getLast? = some v
  bad : ∀ box items, v ≠ .tuple box items

namespace BadStar

variable {s : Signature} {args : List Value} {v : Value}

theorem layOut (b : BadStar s args v) (n : Value → String) :
    s.layOut n args = .error (.type (.starNotIterable (n v))) :=
  Signature.layOut_of_bad (Signature.fault?_eq_none_iff.mp b.valid).1 b.star b.length b.last b.bad n

theorem arity_ne_zero (b : BadStar s args v) : s.arity ≠ 0 := by
  have hne : args ≠ [] := by
    rintro rfl
    cases b.last
  rw [← b.length]
  exact mt List.length_eq_zero_iff.mp hne

theorem withReceiver (b : BadStar s args v) (receiver : Value) :
    BadStar s.withReceiver (receiver :: args) v := by
  refine ⟨b.valid, ?_, congrArg (· + 1) b.length, ?_, b.bad⟩
  · rw [Signature.hasStar_withReceiver, b.star]
  · rw [List.getLast?_cons, b.last]
    rfl

end BadStar

namespace Engine

open History

variable {o : Usage} {e : Engine} {H K : History} {ctx : SpecializerRef} {site : CallSiteRef}
  {t : TypeRef} {s : Signature} {args : List Value} {v : Value} {w : World} {k : Shortcut}

/-- Fails with the complaint about a star, and does nothing else. -/
def rejectStar (v : Value) : Run CallError Value := do
  Run.fail (.runtime (.type (.starNotIterable ((← Run.heap).typeName v))))

/-- Constructs before it complains, and complains about the star only if there is something to
initialize. -/
def constructFirst (e : Engine) (t : TypeRef) (c : NativeCtor) (v : Value) :
    Run CallError Value := do
  let h ← Run.heap
  let x ← Run.mapError .runtime (e.construct (h.typeAt t).layout 0 c [.type t])
  let h ← Run.heap
  if x ≠ .none ∧ h.nativeLayout x = (h.layoutOf t).id then rejectStar v else return x

theorem seen_rejectStar (v : Value) {w w' : World} (heap : w'.heap = w.heap)
    (trace : w'.trace = w.trace) : Run.seen (rejectStar v w') = Run.seen (rejectStar v w) := by
  change (Except.error (Stop.error (CallError.runtime (.type (.starNotIterable
    (w'.heap.typeName v))))), w'.heap, w'.trace) = (_, w.heap, w.trace)
  rw [heap, trace]
  rfl

theorem general_bad (bad : BadStar s args v) (callee : Value) (w : World) :
    e.general s callee args w = rejectStar v w := by
  unfold general callWritten Run.mapError
  rw [heap_bind, bad.layOut]
  rfl

theorem callRelay_bad (bad : BadStar s args v) (hr : Reachable o H) (hdepth : e.depth ≠ 0)
    {r : RelayRef} {f : FunctionRef} (calls : H.caches.RelaysTo r f s.withReceiver)
    (receiver : Value) :
    Run.seen (e.callRelay ctx r receiver args H.world) = Run.seen (rejectStar v H.world) := by
  obtain ⟨K, unseen, same⟩ := callRelay_ends (e := e) hr calls receiver bad.length
  unfold relayed at same
  rw [if_neg hdepth, general_bad (bad.withReceiver receiver)] at same
  exact same.trans (seen_rejectStar v unseen.heap unseen.trace)

theorem seen_bind_rejectStar {x : Run CallError Value} {w' : World}
    (same : Run.seen (x w) = Run.seen (rejectStar v w')) (f : Value → Run CallError Value) :
    Run.seen ((x >>= f) w) = Run.seen (rejectStar v w') := by
  rw [Run.bind_apply]
  cases hx : x w with
  | ok a w₁ =>
    rw [hx] at same
    cases congrArg (·.1) same
  | error st w₁ =>
    rw [hx] at same
    exact same

/-! ## Shortcuts -/

theorem runAllocation_native {c : NativeCtor} (ctors : (K.heap.layoutOf t).ctors = [c])
    {a : Allocation} (makes : K.caches.Makes s a (.native (K.heap.typeAt t).layout)) :
    e.runAllocation (e.callRelay ctx) a t args K.world =
      Run.mapError .runtime (e.construct (K.heap.typeAt t).layout 0 c [.type t]) K.world := by
  cases makes
  unfold runAllocation
  dsimp only
  rw [heap_bind]
  unfold Heap.layoutOf at ctors
  rw [ctors]

section

variable {c₀ : Caches} {B : Prop} {f : FunctionRef} (bad : BadStar s args v) (hdepth : e.depth ≠ 0)

include bad hdepth

theorem runShortcut_bad_user (hr : Reachable o K)
    (makes : K.caches.Makes s.withReceiver k.allocate (.user f)) :
    Run.seen (e.runShortcut (e.callRelay ctx) k t args K.world) =
      Run.seen (rejectStar v K.world) := by
  unfold runShortcut
  generalize k.allocate = a at makes ⊢
  cases makes with
  | relay calls => exact seen_bind_rejectStar (callRelay_bad bad hr hdepth calls (.type t)) _

theorem runShortcut_bad_native (bodies : Bodies o c₀ B e) (hfrom : From o c₀ K) {c : NativeCtor}
    (ctors : (K.heap.layoutOf t).ctors = [c])
    (makes : K.caches.Makes s.withReceiver k.allocate (.native (K.heap.typeAt t).layout))
    (initializes : K.caches.Initializes s.withReceiver k.initializer (some f)) :
    Run.seen (e.runShortcut (e.callRelay ctx) k t args K.world) =
      Run.seen (e.constructFirst t c v K.world) := by
  obtain ⟨L, run, hL⟩ := (construct_steady bodies (K.heap.typeAt t).layout 0 c [.type t]).moves
    K hfrom
  have made : e.runAllocation (e.callRelay ctx) k.allocate t args K.world = _ :=
    runAllocation_native ctors makes
  unfold runShortcut constructFirst
  rw [heap_bind, Run.bind_apply, Run.bind_apply, made]
  unfold Run.mapError
  cases built : e.construct (K.heap.typeAt t).layout 0 c [.type t] K.world with
  | error st w =>
    cases st <;> rfl
  | ok x w =>
    rw [built] at hL
    obtain rfl : L.world = w := hL
    have initializes := initializes.mono (hfrom.reachable.grows run).caches
    generalize k.initializer = i at initializes
    cases initializes with
    | some calls =>
      unfold runInitializer
      dsimp only
      rw [heap_bind, heap_bind]
      split
      · exact seen_bind_rejectStar
          (callRelay_bad bad (hfrom.reachable.trans run) hdepth calls x) _
      · rfl

end

/-! ## Main theorem -/

section

variable (hr : Reachable o H) (has : H.caches.HasSpecializer ctx) (hsite : H.caches.HasSite site)
  (use : o site ctx) (hdepth : e.depth ≠ 0) (fits : H.heap.Fits)
  (bad : BadStar (H.caches.siteAt site).shape.signature args v)

include hr has hsite use hdepth fits bad

theorem invoke_complains
    (served : H.world.CutsShort ctx site t args.length → H.heap.slot t .new ≠ .standard) :
    Run.seen (e.invoke ctx site (.type t) args H.world) = Run.seen (rejectStar v H.world) := by
  by_cases cut : H.world.CutsShort ctx site t args.length
  · obtain ⟨s, r, -, hrecipe, K, k, unseen, realizes, same⟩ :=
      invoke_cuts (e := e) hr fits bad.length has hsite use cut
    obtain ⟨-, -, -, hmaker⟩ := Heap.recipe_eq_ok_iff.mp hrecipe
    have makes := realizes.maker
    cases hm : r.maker with
    | native l =>
      rw [hm] at hmaker
      exact absurd (Heap.maker?_eq_native_iff.mp hmaker).1 (served cut)
    | user f =>
      rw [hm] at makes
      rw [same, runShortcut_bad_user bad hdepth (hr.trans unseen.run) makes]
      exact seen_rejectStar v unseen.heap unseen.trace
  · obtain ⟨K, unseen, same⟩ := invoke_ends (e := e) hr fits bad.length has cut
    rw [same, general_bad bad]
    exact seen_rejectStar v unseen.heap unseen.trace

/-- A shortcut for a class that has the `__new__` of `object` constructs first. -/
theorem invoke_constructs (bodies : Bodies o H.caches False e)
    (cut : H.world.CutsShort ctx site t args.length) (standard : H.heap.slot t .new = .standard) :
    ∃ c, (H.heap.layoutOf t).ctors = [c] ∧
      EndsAs o H (e.invoke ctx site (.type t) args H.world) (e.constructFirst t c v) := by
  obtain ⟨s, ⟨maker, initializer⟩, -, hrecipe, K, k, unseen, realizes, same⟩ :=
    invoke_cuts (e := e) hr fits bad.length has hsite use cut
  obtain ⟨-, -, hinit, hmaker⟩ := Heap.recipe_eq_ok_iff.mp hrecipe
  have makes := realizes.maker
  have initializes := realizes.initializer
  cases maker with
  | user f =>
    obtain ⟨box, hslot⟩ := Heap.maker?_eq_user_iff.mp hmaker
    rw [standard] at hslot
    cases hslot
  | native l =>
    obtain ⟨-, rfl, sole⟩ := Heap.maker?_eq_native_iff.mp hmaker
    obtain ⟨c, ctors, -⟩ := hasSoleAllocator_iff.mp sole
    cases initializer with
    | none =>
      -- With arguments and no slot of the user there is no shortcut.
      obtain ⟨-, none | user⟩ := Heap.initializer?_eq_none_iff.mp hinit
      · exact absurd none bad.arity_ne_zero
      · exact absurd standard user
    | some f =>
      refine ⟨c, ctors, K, unseen, ?_⟩
      have hfrom : From o H.caches K := ⟨hr.trans unseen.run, (hr.grows unseen.run).caches⟩
      rw [← unseen.heap] at ctors
      dsimp only at makes
      rw [← unseen.heap] at makes
      rw [same, runShortcut_bad_native bad hdepth bodies hfrom ctors makes initializes]

end

/-- A star that is no tuple. The general protocol complains about it and does nothing else, whatever
the type is. So does every call through a call site, unless a shortcut serves it and the class has
the `__new__` of `object`: then the sole constructor of the layout runs first. What it fails with is
the result, and so is what it makes if that has not the layout of the class. -/
theorem star_rejected (hr : Reachable o H) (has : H.caches.HasSpecializer ctx)
    (hsite : H.caches.HasSite site) (use : o site ctx) (bodies : Bodies o H.caches False e)
    (hdepth : e.depth ≠ 0) (fits : H.heap.Fits)
    (bad : BadStar (H.caches.siteAt site).shape.signature args v) (t : TypeRef) :
    e.general (H.caches.siteAt site).shape.signature (.type t) args H.world =
        rejectStar v H.world ∧
    ((H.world.CutsShort ctx site t args.length → H.heap.slot t .new ≠ .standard) →
      Run.seen (e.invoke ctx site (.type t) args H.world) = Run.seen (rejectStar v H.world)) ∧
    (H.world.CutsShort ctx site t args.length → H.heap.slot t .new = .standard →
      ∃ c, (H.heap.layoutOf t).ctors = [c] ∧
        EndsAs o H (e.invoke ctx site (.type t) args H.world) (e.constructFirst t c v)) := by
  refine ⟨general_bad bad _ _, fun served => ?_, fun cut standard => ?_⟩
  · exact invoke_complains hr has hsite use hdepth fits bad served
  · exact invoke_constructs hr has hsite use hdepth fits bad bodies cut standard

/-! ## A constructor that makes something else -/

/-- Class A has a layout with one constructor of its own, and a function of the user's as its
`__init__`. The call site passes one star. -/
def starred : History :=
  let H := start #[⟨"__init__", ["self", "x"], false⟩]
  let H := H.withHeap (H.heap.addLayout "Five" [⟨[.type], .custom⟩]).2
  let H := H.withHeap
    (H.heap.tryDefine
      { name := "A", layout := some ⟨1⟩, attrs := [("__init__", .function ⟨0⟩)] })
  H.withCaches (H.caches.addSite { signature := ⟨[.star]⟩ }).2

theorem starred_reachable (o : Usage) : Reachable o starred := by
  let H := start #[⟨"__init__", ["self", "x"], false⟩]
  have laid : Step o H _ := .heap (.addLayout "Five" [⟨[.type], .custom⟩])
  refine ⟨_, ((Relation.ReflTransGen.single laid).tail (.heap (.tryDefine ?_ ?_))).tail
    (.addSite { signature := ⟨[.star]⟩ })⟩
  · simp
  · decide

theorem starred_bad : BadStar (starred.caches.siteAt ⟨0⟩).shape.signature [.int 7] (.int 7) where
  valid := rfl
  star := rfl
  length := rfl
  last := rfl
  bad := by simp

theorem starred_cut : starred.world.CutsShort .shared ⟨0⟩ ⟨1⟩ 1 :=
  ⟨rfl, Or.inr ⟨⟨.native ⟨1⟩, some ⟨0⟩⟩, by cbv⟩⟩

/-- The constructor gives 5, so that is what the call gives. -/
theorem starred_constructs :
    (constant (.int 5)).general ⟨[.star]⟩ (.type ⟨1⟩) [.int 7] starred.world =
        rejectStar (.int 7) starred.world ∧
      EndsAs (fun _ _ => True) starred
        ((constant (.int 5)).invoke .shared ⟨0⟩ (.type ⟨1⟩) [.int 7] starred.world)
        ((constant (.int 5)).constructFirst ⟨1⟩ ⟨[.type], .custom⟩ (.int 7)) := by
  have has : starred.caches.HasSpecializer .shared ∧ starred.caches.HasSite ⟨0⟩ := by
    decide +kernel
  obtain ⟨general, -, first⟩ := star_rejected (starred_reachable fun _ _ => True) has.1 has.2
    trivial (constant_bodies (.int 5)) (by decide) (by decide +kernel) starred_bad ⟨1⟩
  obtain ⟨c, ctors, ends⟩ := first starred_cut (by decide +kernel)
  have sole : (starred.heap.layoutOf ⟨1⟩).ctors = [⟨[.type], .custom⟩] := by decide +kernel
  obtain rfl : ⟨[.type], .custom⟩ = c := by simpa [sole] using ctors
  exact ⟨general, ends⟩

/-- A native constructor is entered and the call succeeds, although the star is no tuple. -/
theorem starred_accepted :
    Reachable (fun _ _ => True) starred ∧
      BadStar (starred.caches.siteAt ⟨0⟩).shape.signature [.int 7] (.int 7) ∧
      Run.outcome ((constant (.int 5)).invoke .shared ⟨0⟩ (.type ⟨1⟩) [.int 7] starred.world) =
        .ok (.int 5) ∧
      (Run.world ((constant (.int 5)).invoke .shared ⟨0⟩ (.type ⟨1⟩) [.int 7]
        starred.world)).trace.toList = [.ctor ⟨1⟩ 0 [.type ⟨1⟩]] ∧
      Run.outcome ((constant (.int 5)).general ⟨[.star]⟩ (.type ⟨1⟩) [.int 7] starred.world) =
        .error (.error (.runtime (.type (.starNotIterable "int")))) :=
  ⟨starred_reachable _, starred_bad, by decide +kernel⟩

end Engine

end InlineCache
