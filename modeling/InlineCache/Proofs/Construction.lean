import InlineCache.Proofs.Signatures
import InlineCache.Proofs.Uncached

/-! # Construction against its recipe

The general protocol resolves `__new__` and `__init__` anew and follows its own rules. Where a type
has a recipe, it runs what the recipe says, in the same order and with the same arguments. -/

namespace InlineCache

/-! ## Laying arguments out -/

namespace Signature

variable {args : List Value} {laid : CallArgs} {n : Value → String}

/-- Names only word complaints: what lays out does so under any names. -/
theorem layOut_ok {s : Signature} (h : s.layOut n args = .ok laid) (n' : Value → String) :
    s.layOut n' args = .ok laid := layOutKinds_eq_ok_iff.mpr (layOutKinds_eq_ok_iff.mp h)

theorem layOut_withReceiver {s : Signature} (h : s.layOut n args = .ok laid) (v : Value) :
    s.withReceiver.layOut n (v :: args) = .ok (laid.withReceiver v) := by
  rw [withReceiver_layOut, h]
  rfl

theorem size_of_arity_eq_zero {s : Signature} (h : s.layOut n args = .ok laid)
    (harity : s.arity = 0) : laid.size = 0 := by
  have hkinds : s.kinds = [] := List.length_eq_zero_iff.mp harity
  unfold layOut at h
  rw [hkinds] at h
  cases h
  rfl

end Signature

/-! ## What look-ups find -/

namespace Heap

variable {h : Heap} {t : TypeRef} {v : Value}

theorem slot_eq_iff {s : Slot} {b : SlotBinding} (hb : b ≠ .notFound) :
    h.slot t s = b ↔ ∃ v, h.lookup t s.attr = some v ∧ SlotBinding.classify s v = b := by
  unfold slot
  cases h.lookup t s.attr with
  | none => simpa using hb.symm
  | some v => simp

theorem lookup_of_slot_user {s : Slot} (hslot : h.slot t s = .user v) :
    h.lookup t s.attr = some v := by
  obtain ⟨w, hw, hclass⟩ := (slot_eq_iff (by simp)).mp hslot
  unfold SlotBinding.classify at hclass
  split at hclass <;> simp_all

theorem lookup_new_of_standard (hslot : h.slot t .new = .standard) :
    h.lookup t Slot.new.attr = some (.builtin .objectNew) := by
  obtain ⟨w, hw, hclass⟩ := (slot_eq_iff (by simp)).mp hslot
  unfold SlotBinding.classify at hclass
  split at hclass <;> simp_all

theorem lookup_init_of_standard (hslot : h.slot t .init = .standard) :
    h.lookup t Slot.init.attr = some (.builtin .objectInit) := by
  obtain ⟨w, hw, hclass⟩ := (slot_eq_iff (by simp)).mp hslot
  unfold SlotBinding.classify at hclass
  split at hclass <;> simp_all

theorem overrides_eq_false (s : Slot) (hslot : h.slot t s = .standard) :
    h.overrides t s = false := by
  simp [overrides, hslot]

theorem overrides_eq_true (s : Slot) (hslot : h.slot t s ≠ .standard) :
    h.overrides t s = true := by
  simp [overrides, hslot]

end Heap

/-! ## What `object` lets pass -/

namespace Engine

variable {e : Engine} {h : Heap} {t : TypeRef} {s : Signature} {n : Value → String}
  {args : List Value} {laid : CallArgs} {w : World} {ε δ α β : Type}

theorem newFault?_eq_none {f : Option FunctionRef} (hinit : h.initializer? s t = .ok f)
    (hnew : h.slot t .new = .standard) (hlaid : s.layOut n args = .ok laid) (v : Value) :
    newFault? h t (laid.withReceiver v) = none := by
  unfold newFault?
  rw [CallArgs.size_withReceiver]
  cases f with
  | none =>
    have harity := (Heap.initializer?_eq_none_iff.mp hinit).2.resolve_right (not_not.mpr hnew)
    rw [Signature.size_of_arity_eq_zero hlaid harity]
    rfl
  | some f =>
    have hslot := Heap.initializer?_eq_some_iff.mp hinit
    rw [Heap.overrides_eq_false .new hnew, Heap.overrides_eq_true .init (by simp [hslot])]
    simp

theorem initFault?_eq_none (hinit : h.initializer? s t = .ok none)
    (hlaid : s.layOut n args = .ok laid) {i : InstanceRef} (htype : (h.objectAt i).type = t)
    (v : Value) : initFault? h (.object i) (laid.withReceiver v) = none := by
  obtain ⟨hslot, harity | hnew⟩ := Heap.initializer?_eq_none_iff.mp hinit
  · unfold initFault?
    rw [CallArgs.size_withReceiver, Signature.size_of_arity_eq_zero hlaid harity]
    rfl
  · unfold initFault?
    simp only [htype]
    rw [Heap.overrides_eq_false .init hslot, Heap.overrides_eq_true .new hnew]
    simp

/-! ## Making the object -/

theorem mapError_bind (f : ε → δ) (x : Run ε α) (g : α → Run ε β) (w : World) :
    Run.mapError f (x >>= g) w = (Run.mapError f x >>= fun a => Run.mapError f (g a)) w := by
  rw [Run.bind_apply]
  unfold Run.mapError
  rw [Run.bind_apply]
  cases x w with
  | ok a w => rfl
  | error s w => cases s <;> rfl

theorem hasSoleAllocator_iff {l : Layout} :
    l.hasSoleAllocator = true ↔ ∃ c, l.ctors = [c] ∧ c.params = [.type] := by
  unfold Layout.hasSoleAllocator NativeCtor.isTypeAllocator
  split <;> simp_all

theorem choose?_of_sole {l : Layout} {c : NativeCtor} (hctors : l.ctors = [c])
    (hc : c.params = [.type]) (t : TypeRef) : l.choose? [.type t] = some (0, c) := by
  unfold Layout.choose?
  simp [hctors, NativeCtor.accepts, hc, acceptsAll, NativeParam.accepts]

theorem allocate_eq {c : NativeCtor} (hctors : (w.heap.layoutOf t).ctors = [c])
    (hc : c.params = [.type]) :
    e.allocate t w = e.construct (w.heap.typeAt t).layout 0 c [.type t] w := by
  unfold allocate allocateIn
  rw [heap_bind, Run.bind_apply, heap_bind]
  have hchoose := choose?_of_sole hctors hc t
  unfold Heap.layoutOf at hchoose
  rw [hchoose]
  dsimp only
  rw [← bind_pure_comp, Run.bind_apply]
  cases e.construct (w.heap.typeAt t).layout 0 c [.type t] w <;> rfl

theorem objectNew_eq {c : NativeCtor}
    (hfault : newFault? w.heap t (laid.withReceiver (.type t)) = none)
    (hctors : (w.heap.layoutOf t).ctors = [c]) (hc : c.params = [.type]) :
    e.objectNew (laid.withReceiver (.type t)) w =
      e.construct (w.heap.typeAt t).layout 0 c [.type t] w := by
  have hhead : (laid.withReceiver (.type t)).positional.head? = some (.type t) := rfl
  unfold objectNew
  rw [hhead]
  dsimp only
  rw [heap_bind, hfault]
  exact allocate_eq hctors hc

theorem callWithin_builtin (e : Engine) (d : Nat) (b : BuiltinRef) (args : CallArgs) :
    e.callWithin d (.builtin b) args = e.callBuiltin b args := by
  cases d <;> rfl

theorem relayed_eq (hdepth : e.depth ≠ 0) (hlaid : s.layOut n args = .ok laid) (f : FunctionRef)
    (v : Value) :
    e.relayed f s v args w = Run.mapError .runtime (e.callFunction f (laid.withReceiver v)) w := by
  unfold relayed
  rw [if_neg hdepth]
  unfold general
  apply mapError_congr
  unfold callWritten
  rw [heap_bind, Signature.layOut_ok (Signature.layOut_withReceiver hlaid v)]
  change e.callWithin e.depth (.function f) (laid.withReceiver v) w = _
  rw [callWithin_function]

section

variable {settings : Settings} {shape : SiteShape} {r : Recipe}

theorem makeObject_eq (hr : w.heap.recipe settings shape t = .ok r)
    (hlaid : shape.signature.layOut n args = .ok laid) (hdepth : e.depth ≠ 0) (d : Nat) :
    ∃ new, w.heap.lookup t Slot.new.attr = some new ∧
      e.makeObject shape.signature r.maker t args w =
        Run.mapError .runtime (callNew (e.callWithin d) t new laid) w := by
  obtain ⟨-, -, hinit, hmaker⟩ := Heap.recipe_eq_ok_iff.mp hr
  cases hm : r.maker with
  | native l =>
    rw [hm] at hmaker
    obtain ⟨hslot, rfl, hsole⟩ := Heap.maker?_eq_native_iff.mp hmaker
    obtain ⟨c, hctors, hc⟩ := hasSoleAllocator_iff.mp hsole
    refine ⟨.builtin .objectNew, Heap.lookup_new_of_standard hslot, ?_⟩
    have hnew : callNew (e.callWithin d) t (.builtin .objectNew) laid w =
        e.construct (w.heap.typeAt t).layout 0 c [.type t] w := by
      change e.callWithin d (.builtin .objectNew) (laid.withReceiver (.type t)) w = _
      rw [callWithin_builtin]
      exact objectNew_eq (newFault?_eq_none hinit hslot hlaid _) hctors hc
    rw [mapError_congr hnew]
    unfold makeObject runAllocation
    dsimp only
    rw [heap_bind]
    unfold Heap.layoutOf at hctors
    rw [hctors]
  | user f =>
    rw [hm] at hmaker
    obtain ⟨box, hslot⟩ := Heap.maker?_eq_user_iff.mp hmaker
    refine ⟨.staticMethod box (.function f), Heap.lookup_of_slot_user hslot, ?_⟩
    have hnew : callNew (e.callWithin d) t (.staticMethod box (.function f)) laid w =
        e.callFunction f (laid.withReceiver (.type t)) w := by
      change e.callWithin d (.function f) (laid.withReceiver (.type t)) w = _
      rw [callWithin_function]
    rw [mapError_congr hnew]
    exact relayed_eq hdepth hlaid f (.type t)

theorem general_type_eq (hr : w.heap.recipe settings shape t = .ok r)
    (hlaid : shape.signature.layOut w.heap.typeName args = .ok laid) {d : Nat}
    (hdepth : e.depth = d + 1) :
    e.general shape.signature (.type t) args w =
      (e.makeObject shape.signature r.maker t args >>= fun v =>
        Run.mapError .runtime (initObject (e.callWithin d) t v laid)) w := by
  obtain ⟨hgate, -, -, -⟩ := Heap.recipe_eq_ok_iff.mp hr
  obtain ⟨-, -, -, -, -, -, hmeta⟩ := Heap.gate_eq_none_iff.mp hgate
  obtain ⟨new, hlookup, hmake⟩ := makeObject_eq (e := e) hr hlaid (by omega) d
  have hcall : e.callWritten shape.signature (.type t) args w =
      (callNew (e.callWithin d) t new laid >>= fun v =>
        initObject (e.callWithin d) t v laid) w := by
    unfold callWritten call
    rw [heap_bind, hlaid, hdepth]
    change instantiate (e.callWithin d) t laid w = _
    unfold instantiate
    rw [heap_bind, hmeta]
    dsimp only [Option.bind_none]
    rw [hlookup]
  unfold general
  rw [mapError_congr hcall, mapError_bind, Run.bind_apply, Run.bind_apply, hmake]

end

/-! ## Initializing the object -/

/-- What was made is plain data, an instance of the type itself, or one of a type that does not
derive from it and has another layout. -/
inductive Settled (h : Heap) (t : TypeRef) : Value → Prop
  | data {v : Value} (plain : ∀ i, v ≠ .object i) : Settled h t v
  | own {i : InstanceRef} (type : (h.objectAt i).type = t)
      (layout : (h.objectAt i).layout = (h.layoutOf t).id) : Settled h t (.object i)
  | foreign {i : InstanceRef} (type : h.isSubtype (h.objectAt i).type t = false)
      (layout : (h.objectAt i).layout ≠ (h.layoutOf t).id) : Settled h t (.object i)

theorem ofData_ne (hh : h.Hierarchy) (fits : h.Fits) (t : TypeRef) {v : Value}
    (plain : ∀ i, v ≠ .object i) : LayoutId.ofData v ≠ (h.layoutOf t).id := by
  have hlt := Caches.layout_lt hh t
  have hlow : (LayoutId.ofData v).raw.toNat < 8 := by
    cases v with
    | object i => exact absurd rfl (plain i)
    | _ => simp [LayoutId.ofData]
  have hhigh : 8 ≤ (h.layoutOf t).id.raw.toNat := by
    rw [Heap.layoutOf, hh.number _ hlt]
    cases hindex : (h.typeAt t).layout.index with
    | zero => exact le_rfl
    | succ n =>
      have := fits.layouts
      rw [Caches.toNat_layoutNumber (by omega)]
      omega
  intro heq
  rw [heq] at hlow
  omega

theorem finishObject_of_ne {v : Value} (hlayout : w.heap.nativeLayout v ≠ (w.heap.layoutOf t).id)
    (s : Signature) (f : Option FunctionRef) : e.finishObject s f t v args w = .ok v w := by
  cases f with
  | none => rfl
  | some f =>
    unfold finishObject
    dsimp only
    rw [heap_bind, if_neg fun h => hlayout h.2]
    rfl

theorem initObject_of_not_instance {call : Value → CallArgs → Run RuntimeError Value} {v : Value}
    (hinst : w.heap.isInstance v t = false) : initObject call t v laid w = .ok v w := by
  unfold initObject
  rw [heap_bind, hinst]
  rfl

/-- An object whose `__init__` gave `x` back, which has to be nothing. -/
def accept (v x : Value) : Run RuntimeError Value := do
  match x with
  | .none => return v
  | other => Run.fail (.initReturned ((← Run.heap).typeName other))

theorem initObject_own {call : Value → CallArgs → Run RuntimeError Value} {i : InstanceRef}
    {init : Value} (htype : (w.heap.objectAt i).type = t)
    (hinit : w.heap.lookup t Slot.init.attr = some init) :
    initObject call t (.object i) laid w =
      (callInit call t init (.object i) laid >>= accept (.object i)) w := by
  have hinst : w.heap.isInstance (.object i) t = true := by
    simp [Heap.isInstance, Heap.isSubtype, Heap.line, htype]
  unfold initObject
  rw [heap_bind, hinst]
  simp only [Bool.not_true, Bool.false_eq_true, if_false, htype]
  rw [hinit]
  rfl

theorem objectInit_eq {v : Value} (hfault : initFault? w.heap v (laid.withReceiver v) = none) :
    objectInit (laid.withReceiver v) w = .ok .none w := by
  have hhead : (laid.withReceiver v).positional.head? = some v := rfl
  unfold objectInit
  rw [hhead]
  dsimp only
  rw [heap_bind, hfault]
  rfl

theorem initObject_standard (hinit : w.heap.initializer? s t = .ok none)
    (hlaid : s.layOut n args = .ok laid) {i : InstanceRef} (htype : (w.heap.objectAt i).type = t)
    (d : Nat) : initObject (e.callWithin d) t (.object i) laid w = .ok (.object i) w := by
  have hslot := (Heap.initializer?_eq_none_iff.mp hinit).1
  rw [initObject_own htype (Heap.lookup_init_of_standard hslot)]
  have hcall : callInit (e.callWithin d) t (.builtin .objectInit) (.object i) laid w =
      .ok .none w := by
    change e.callWithin d (.builtin .objectInit) (laid.withReceiver (.object i)) w = _
    rw [callWithin_builtin]
    exact objectInit_eq (initFault?_eq_none hinit hlaid htype _)
  rw [Run.bind_apply, hcall]
  rfl

theorem initObject_user {f : FunctionRef} (hslot : w.heap.slot t .init = .user (.function f))
    {i : InstanceRef} (htype : (w.heap.objectAt i).type = t) (d : Nat) :
    initObject (e.callWithin d) t (.object i) laid w =
      (e.callFunction f (laid.withReceiver (.object i)) >>= accept (.object i)) w := by
  rw [initObject_own htype (Heap.lookup_of_slot_user hslot), Run.bind_apply, Run.bind_apply]
  have hcall : callInit (e.callWithin d) t (.function f) (.object i) laid w =
      e.callFunction f (laid.withReceiver (.object i)) w := by
    change e.callWithin d (.function f) (laid.withReceiver (.object i)) w = _
    rw [callWithin_function]
  rw [hcall]

/-- Either both ways leave the object as it is, or both run the same `__init__` on it. -/
theorem finish_cases {settings : Settings} {shape : SiteShape} {r : Recipe}
    (hh : w.heap.Hierarchy) (fits : w.heap.Fits) (hr : w.heap.recipe settings shape t = .ok r)
    (hlaid : shape.signature.layOut n args = .ok laid) (hdepth : e.depth ≠ 0) (d : Nat) {v : Value}
    (settled : Settled w.heap t v) :
    ((r.initializer = none ∨ w.heap.nativeLayout v ≠ (w.heap.layoutOf t).id) ∧
      e.finishObject shape.signature r.initializer t v args w = .ok v w ∧
      initObject (e.callWithin d) t v laid w = .ok v w) ∨
    ∃ f, r.initializer = some f ∧ v ≠ .none ∧ w.heap.nativeLayout v = (w.heap.layoutOf t).id ∧
      e.finishObject shape.signature r.initializer t v args w =
        (e.relayed f shape.signature v args >>= fun _ => pure v) w ∧
      Run.mapError .runtime (initObject (e.callWithin d) t v laid) w =
        (e.relayed f shape.signature v args >>= fun x => Run.mapError .runtime (accept v x)) w := by
  obtain ⟨hgate, -, hinit, -⟩ := Heap.recipe_eq_ok_iff.mp hr
  obtain ⟨-, hsystem, -⟩ := Heap.gate_eq_none_iff.mp hgate
  cases settled with
  | data plain =>
    have hroot : t ≠ .object := by
      rintro rfl
      rw [hh.system] at hsystem
      exact absurd hsystem (by simp)
    have hlayout : w.heap.nativeLayout v ≠ (w.heap.layoutOf t).id := by
      cases v with
      | object i => exact absurd rfl (plain i)
      | _ => exact ofData_ne hh fits t plain
    have hinst : w.heap.isInstance v t = false := by
      cases v with
      | object i => exact absurd rfl (plain i)
      | _ => simpa [Heap.isInstance] using hroot
    exact Or.inl ⟨Or.inr hlayout, finishObject_of_ne hlayout _ _, initObject_of_not_instance hinst⟩
  | @foreign i type layout =>
    have hlayout : w.heap.nativeLayout (.object i) ≠ (w.heap.layoutOf t).id := layout
    exact Or.inl ⟨Or.inr layout, finishObject_of_ne hlayout _ _, initObject_of_not_instance type⟩
  | @own i type layout =>
    cases hi : r.initializer with
    | none =>
      rw [hi] at hinit
      exact Or.inl ⟨Or.inl rfl, rfl, initObject_standard hinit hlaid type d⟩
    | some f =>
      rw [hi] at hinit
      have hslot := Heap.initializer?_eq_some_iff.mp hinit
      refine Or.inr ⟨f, rfl, by simp, layout, ?_, ?_⟩
      · unfold finishObject
        dsimp only
        rw [heap_bind, if_pos ⟨by simp, layout⟩]
      · rw [mapError_congr (initObject_user hslot type d), mapError_bind, Run.bind_apply,
          Run.bind_apply, relayed_eq hdepth hlaid]

end Engine

end InlineCache
