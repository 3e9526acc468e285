import InlineCache.Proofs.ArityCap
import InlineCache.Proofs.CallSteps
import InlineCache.Proofs.Metaclass

/-! # Metaclasses below a metaclass

A definition compares the metaclasses of the direct bases only. Since each type's metaclass derives
from those of its bases, and deriving is transitive, it derives from the metaclass of everything
that the type derives from. So what a metaclass decides it decides for all classes below. -/

namespace InlineCache.Heap

open Relation

/-- The metaclass of a type derives from the metaclasses of its bases. -/
def Descends (h : Heap) : Prop :=
  ∀ t b m, h.Derives t b → (h.typeAt b).metaclass = some m →
    ∃ k, (h.typeAt t).metaclass = some k ∧ h.isSubtype k m = true

/-! ## What stays as it is -/

theorem Grows.metaclass {h h' : Heap} (g : Grows h h') {t : TypeRef} (ht : h.Has t) :
    (h'.typeAt t).metaclass = (h.typeAt t).metaclass := by
  obtain ⟨_, _, _, heq⟩ := g.type t ht
  rw [heq]

theorem Grows.isSubtype {h h' : Heap} (g : Grows h h') {t u : TypeRef}
    (sub : h.isSubtype t u = true) : h'.isSubtype t u = true := by
  rw [isSubtype_iff, mem_line] at sub ⊢
  refine sub.imp_right fun hu => ?_
  rwa [g.ancestors (has_of_mem_ancestors hu)]

/-! ## One definition -/

section

variable {h h' : Heap} (hl : h.Linearized) {c : ClassSpec} {t : TypeRef}
  (done : h.define c = .ok (t, h'))

include hl done

theorem Linearized.metaclass_of_candidate {m : TypeRef} (candidate : m ∈ h.candidatesOf c) :
    ∃ k, (h'.typeAt t).metaclass = some k ∧ h.isSubtype k m = true := by
  have some_metaclass : (h'.typeAt t).metaclass ≠ none := by
    rw [Ne, hl.metaclass_eq_none_iff done]
    exact List.ne_nil_of_mem candidate
  obtain ⟨k, hk⟩ := Option.ne_none_iff_exists'.mp some_metaclass
  exact ⟨k, hk, ((hl.metaclass_eq_some_iff done k).mp hk).2 m candidate⟩

end

theorem mem_candidatesOf {h : Heap} {c : ClassSpec} {m : TypeRef} :
    m ∈ h.candidatesOf c ↔
      c.metaclass = some m ∨ ∃ b ∈ c.parents, (h.typeAt b).metaclass = some m := by
  simp [candidatesOf, candidates]

theorem descends_initial (functions : Array FunctionRecord) :
    Descends { initial with functions } := by
  intro t b m hb
  have ht := has_of_derives hb
  rw [eq_object_of_has_initial functions t ht] at hb
  exact absurd hb List.not_mem_nil

theorem Change.descends {h h' : Heap} (change : h.Change h') (hl : h.Linearized)
    (descends : h.Descends) : h'.Descends := by
  have g := change.grows hl.toHierarchy
  intro t b m hb hm
  rcases change.has (has_of_derives hb) with hold | ⟨c, bases, done⟩
  · rw [Derives, g.bases hold] at hb
    rw [g.metaclass (hl.toHierarchy.has_base hold hb)] at hm
    obtain ⟨k, hk, hkm⟩ := descends t b m hb hm
    exact ⟨k, by rw [g.metaclass hold, hk], g.isSubtype hkm⟩
  · have hparent : b ∈ c.parents := by
      obtain ⟨-, ancestors, metaclass, subtypes, -, -, hat⟩ := typeAt_define done
      rwa [Derives, hat] at hb
    rw [g.metaclass (has_parents hl.toHierarchy bases b hparent)] at hm
    have candidate := mem_candidatesOf.mpr (Or.inr ⟨b, hparent, hm⟩)
    obtain ⟨k, hk, hkm⟩ := hl.metaclass_of_candidate done candidate
    exact ⟨k, hk, g.isSubtype hkm⟩

theorem Timeline.descends {h : Nat → Heap} (run : Timeline h) : ∀ n, (h n).Descends :=
  run.invariant descends_initial fun n => (run.step n).descends (run.linearized n)

theorem Descends.metaclass_of_isSubtype {h : Heap} (descends : h.Descends) (hl : h.Linearized)
    {t a m : TypeRef} (sub : h.isSubtype t a = true) (hm : (h.typeAt a).metaclass = some m) :
    ∃ k, (h.typeAt t).metaclass = some k ∧ h.isSubtype k m = true := by
  have order := hl.isPartialOrder
  -- Up from the type, one base at a time.
  induction hl.isSubtype_iff_reaches.mp sub using ReflTransGen.head_induction_on with
  | refl => exact ⟨m, hm, order.refl m⟩
  | head hb _ ih =>
    rename_i reach
    obtain ⟨k, hk, hkm⟩ := ih (hl.isSubtype_iff_reaches.mpr reach)
    obtain ⟨k', hk', hkk⟩ := descends _ _ k hb hk
    exact ⟨k', hk', order.trans _ _ _ hkk hkm⟩

/-! ## What a metaclass decides -/

theorem Linearized.lookup_of_isSubtype {h : Heap} (hl : h.Linearized) {k m : TypeRef}
    (sub : h.isSubtype k m = true) {name : String} {v : Value} (found : h.lookup m name = some v) :
    ∃ w, h.lookup k name = some w := by
  have some_own : (h.lookup m name).isSome := by rw [found]; rfl
  obtain ⟨x, hx, own⟩ := List.findSome?_isSome_iff.mp some_own
  have hkx := hl.isPartialOrder.trans _ _ _ sub (isSubtype_iff.mpr hx)
  exact Option.isSome_iff_exists.mp
    (List.findSome?_isSome_iff.mpr ⟨x, isSubtype_iff.mp hkx, own⟩)

theorem gate_of_metaclass {settings : Settings} {h : Heap} {shape : SiteShape} {t m : TypeRef}
    (hm : (h.typeAt t).metaclass = some m) : ∃ reason, gate settings h shape t = some reason := by
  apply Option.ne_none_iff_exists'.mp
  intro hgate
  obtain ⟨-, -, -, -, -, -, none_metaclass⟩ := gate_eq_none_iff.mp hgate
  rw [hm] at none_metaclass
  exact nomatch none_metaclass

theorem instantiate_of_metaclass {h : Heap} {t k : TypeRef} {f : Value}
    (hk : (h.typeAt t).metaclass = some k) (hf : h.lookup k Slot.call.attr = some f)
    (call : Value → CallArgs → Run RuntimeError Value) (args : CallArgs) {w : World}
    (hw : w.heap = h) :
    Engine.instantiate call t args w = call f (args.withReceiver (.type t)) w := by
  have found : ((w.heap.typeAt t).metaclass.bind fun m => w.heap.lookup m Slot.call.attr) =
      some f := by rw [hw, hk, Option.bind_some, hf]
  unfold Engine.instantiate
  rw [Engine.heap_bind, found]

/-! ## Main theorem -/

namespace Timeline

variable {h : Nat → Heap}

theorem exists_define (run : Timeline h) (n : Nat) {t : TypeRef} (ht : (h n).Has t)
    (hne : t ≠ .object) : ∃ i c, i < n ∧ (h i).define c = .ok (t, h (i + 1)) := by
  induction n with
  | zero =>
    obtain ⟨functions, hstart⟩ := run.start
    rw [hstart] at ht
    exact absurd (eq_object_of_has_initial functions t ht) hne
  | succ n ih =>
    rcases (run.step n).has ht with hold | ⟨c, -, done⟩
    · obtain ⟨i, c, hlt, done⟩ := ih hold
      exact ⟨i, c, hlt.trans n.lt_succ_self, done⟩
    · exact ⟨n, c, n.lt_succ_self, done⟩

section

variable (run : Timeline h) {i n : Nat} (hin : i < n) {c : ClassSpec} {t : TypeRef}
  (done : (h i).define c = .ok (t, h (i + 1)))

include run hin done

/-- A type keeps the metaclass that its definition gave it, which is a candidate. -/
theorem metaclass_cases {k : TypeRef} (hk : ((h n).typeAt t).metaclass = some k) :
    c.metaclass = some k ∨
      ∃ b, (h n).Derives t b ∧ ((h n).typeAt b).metaclass = some k := by
  have ht := has_of_define done
  have later := run.grows hin
  rw [later.metaclass ht] at hk
  have candidate := (((run.linearized i).metaclass_eq_some_iff done k).mp hk).1
  refine (mem_candidatesOf.mp candidate).imp_right ?_
  rintro ⟨b, hb, hbk⟩
  obtain ⟨rfl, ancestors, metaclass, subtypes, -, -, hat⟩ := typeAt_define done
  have base : (h (i + 1)).Derives ⟨(h i).types.size⟩ b := by rwa [Derives, hat]
  have hold : (h i).Has b := (run.hierarchy (i + 1)).bases _ ht b base
  refine ⟨b, by rwa [Derives, later.bases ht], ?_⟩
  rw [(run.grows hin.le).metaclass hold, hbk]

theorem metaclass_of_given {m : TypeRef} (given : c.metaclass = some m) :
    ∃ k, ((h n).typeAt t).metaclass = some k ∧ (h n).isSubtype k m = true := by
  obtain ⟨k, hk, hkm⟩ := (run.linearized i).metaclass_of_candidate done
    (mem_candidatesOf.mpr (Or.inl given))
  refine ⟨k, ?_, (run.grows hin.le).isSubtype hkm⟩
  rw [(run.grows hin).metaclass (has_of_define done), hk]

end

/-- Metaclasses get only more derived further down. At every moment of a run, whatever derives from
a type with a metaclass has a metaclass that derives from that one. So no request is answered with a
shortcut for it, and if the metaclass further up has `__call__`, the one further down has it too and
takes every call of the class. The metaclass of a type is the one that its definition names or that
of a base, and derives from the named one. -/
theorem metaclass_descends (run : Timeline h) (n : Nat) :
    (∀ t a m, (h n).isSubtype t a = true → ((h n).typeAt a).metaclass = some m →
      ∃ k, ((h n).typeAt t).metaclass = some k ∧ (h n).isSubtype k m = true ∧
        (∀ s shape c, ∃ reason,
          Caches.request (h n) s shape t c = .ok (.error reason) (c.count s .ineligible)) ∧
        ∀ v, (h n).lookup m Slot.call.attr = some v →
          ∃ f, (h n).lookup k Slot.call.attr = some f ∧ ∀ call args w, w.heap = h n →
            Engine.instantiate call t args w = call f (args.withReceiver (.type t)) w) ∧
    (∀ t, (h n).Has t → t ≠ .object → ∃ i c, i < n ∧ (h i).define c = .ok (t, h (i + 1))) ∧
    ∀ i c t, i < n → (h i).define c = .ok (t, h (i + 1)) →
      (∀ k, ((h n).typeAt t).metaclass = some k →
        c.metaclass = some k ∨ ∃ b, (h n).Derives t b ∧ ((h n).typeAt b).metaclass = some k) ∧
      ∀ m, c.metaclass = some m →
        ∃ k, ((h n).typeAt t).metaclass = some k ∧ (h n).isSubtype k m = true := by
  have hl := run.linearized n
  refine ⟨?_, fun t => run.exists_define n, ?_⟩
  · intro t a m sub hm
    obtain ⟨k, hk, hkm⟩ := (run.descends n).metaclass_of_isSubtype hl sub hm
    refine ⟨k, hk, hkm, fun s shape c => ?_, fun v hv => ?_⟩
    · obtain ⟨reason, hgate⟩ := gate_of_metaclass hk
      exact ⟨reason, Engine.request_of_gate hgate⟩
    · obtain ⟨f, hf⟩ := hl.lookup_of_isSubtype hkm hv
      exact ⟨f, hf, fun call args w => instantiate_of_metaclass hk hf call args⟩
  · intro i c t hin done
    exact ⟨fun k => run.metaclass_cases hin done, fun m => run.metaclass_of_given hin done⟩

/-- Metaclass 2 derives from metaclass 1, which has `__call__`. Type 3 has metaclass 1, type 4 below
it names metaclass 2, and type 5 below that names none but has its own `__new__`. -/
def branches : Nat → Heap
  | 0 => { initial with functions := #[⟨"__call__", ["cls"], true⟩] }
  | 1 => (branches 0).tryDefine { name := "Meta", attrs := [("__call__", .function ⟨0⟩)] }
  | 2 => (branches 1).tryDefine { name := "SubMeta", bases := [⟨1⟩] }
  | 3 => (branches 2).tryDefine { name := "A", metaclass := some ⟨1⟩ }
  | 4 => (branches 3).tryDefine { name := "B", bases := [⟨3⟩], metaclass := some ⟨2⟩ }
  | 5 => (branches 4).tryDefine
      { name := "C", bases := [⟨4⟩], attrs := [("__new__", .staticMethod 0 (.function ⟨0⟩))] }
  | n + 6 => branches (n + 5)

theorem branches_timeline : Timeline branches := by
  have one : (branches 1).types.size = 2 := by cbv
  have three : (branches 3).types.size = 4 := by cbv
  have four : (branches 4).types.size = 5 := by cbv
  refine ⟨⟨_, rfl⟩, ?_⟩
  rintro (_ | _ | _ | _ | _ | n)
  · exact .tryDefine (by simp) (by simp)
  · exact .tryDefine (by simp [Has, one]) (by simp)
  · exact .tryDefine (by simp) (by simp)
  · exact .tryDefine (by simp [Has, three]) (by simp)
  · exact .tryDefine (by simp [Has, four]) (by simp)
  · exact .idle _

/-- The `__new__` of type 5 is left to the metaclass of type 4. -/
theorem branches_descend :
    ((branches 5).typeAt ⟨5⟩).metaclass = some ⟨2⟩ ∧ (branches 5).isSubtype ⟨2⟩ ⟨1⟩ = true ∧
      (∃ i c, i < 5 ∧ (branches i).define c = .ok (⟨5⟩, branches (i + 1)) ∧
        (c.metaclass = some ⟨2⟩ ∨
          ∃ b, (branches 5).Derives ⟨5⟩ b ∧ ((branches 5).typeAt b).metaclass = some ⟨2⟩)) ∧
      ∀ call args w, w.heap = branches 5 → Engine.instantiate call ⟨5⟩ args w =
        call (.function ⟨0⟩) (args.withReceiver (.type ⟨5⟩)) w := by
  obtain ⟨descends, built, decided⟩ := metaclass_descends branches_timeline 5
  obtain ⟨k, hk, hkm, -, decides⟩ :=
    descends ⟨5⟩ ⟨3⟩ ⟨1⟩ (by decide +kernel) (by decide +kernel)
  obtain ⟨f, hf, dispatch⟩ := decides (.function ⟨0⟩) (by decide +kernel)
  have at_two : ((branches 5).typeAt ⟨5⟩).metaclass = some ⟨2⟩ := by decide +kernel
  obtain rfl := Option.some.inj (hk.symm.trans at_two)
  have inherited : (branches 5).lookup ⟨2⟩ Slot.call.attr = some (.function ⟨0⟩) := by
    decide +kernel
  obtain rfl := Option.some.inj (hf.symm.trans inherited)
  obtain ⟨i, c, hi, done⟩ := built ⟨5⟩ (by decide +kernel) (by decide)
  exact ⟨hk, hkm, ⟨i, c, hi, done, (decided i c ⟨5⟩ hi done).1 ⟨2⟩ hk⟩, dispatch⟩

end Timeline

end InlineCache.Heap
