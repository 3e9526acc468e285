import InlineCache.Proofs.Definition

/-! # Ancestors

The line of a type holds the types that it reaches through bases, once each, and keeps the line of
every type in it. So no look-up finds what a nearer class hides. -/

namespace InlineCache.Heap

open Relation Linearization

/-- `t` names `b` as a base. -/
def Derives (h : Heap) (t b : TypeRef) : Prop := b ∈ (h.typeAt t).bases

/-- The first type in line that defines the attribute. -/
def definer? (h : Heap) (t : TypeRef) (name : String) : Option TypeRef :=
  (h.line t).find? fun x => (h.ownAttr x name).isSome

/-- The ancestors of every type but the root keep the lines of its bases and the bases
themselves. -/
structure Linearized (h : Heap) : Prop extends Hierarchy h where
  root_bases : (h.typeAt .object).bases = []
  root_ancestors : (h.typeAt .object).ancestors = []
  bases_ne : ∀ t, h.Has t → t ≠ .object → (h.typeAt t).bases ≠ []
  keeps : ∀ t, h.Has t → t ≠ .object →
    Keeps (h.baseOrders (h.typeAt t).bases) (h.typeAt t).ancestors

/-! ## In every heap of a run -/

theorem linearized_initial (functions : Array FunctionRecord) :
    Linearized { initial with functions } := by
  have hroot := eq_object_of_has_initial functions
  refine ⟨hierarchy_initial functions, rfl, rfl, ?_, ?_⟩
  · exact fun t ht hne => absurd (hroot t ht) hne
  · exact fun t ht hne => absurd (hroot t ht) hne

theorem Grows.bases {h h' : Heap} (g : Grows h h') {t : TypeRef} (ht : h.Has t) :
    (h'.typeAt t).bases = (h.typeAt t).bases := by
  obtain ⟨_, _, _, heq⟩ := g.type t ht
  rw [heq]

theorem Grows.ancestors {h h' : Heap} (g : Grows h h') {t : TypeRef} (ht : h.Has t) :
    (h'.typeAt t).ancestors = (h.typeAt t).ancestors := by
  obtain ⟨_, _, _, heq⟩ := g.type t ht
  rw [heq]

theorem Grows.baseOrders {h h' : Heap} (g : Grows h h') {bases : List TypeRef}
    (hb : ∀ b ∈ bases, h.Has b) : h'.baseOrders bases = h.baseOrders bases := by
  have hline : bases.map h'.line = bases.map h.line := by
    apply List.map_congr_left
    intro b hin
    rw [line, line, g.ancestors (hb b hin)]
  rw [Heap.baseOrders, Heap.baseOrders, hline]

theorem Hierarchy.has_base {h : Heap} (hh : h.Hierarchy) {t b : TypeRef} (ht : h.Has t)
    (hb : h.Derives t b) : h.Has b :=
  (hh.bases t ht b hb).trans ht

theorem Change.linearized {h h' : Heap} (change : h.Change h') (hl : h.Linearized) :
    h'.Linearized := by
  have g := change.grows hl.toHierarchy
  have hroot := hl.root
  refine ⟨change.hierarchy hl.toHierarchy, ?_, ?_, ?_, ?_⟩
  · rw [g.bases hroot, hl.root_bases]
  · rw [g.ancestors hroot, hl.root_ancestors]
  · intro t ht hne
    rcases change.has ht with hold | ⟨c, -, done⟩
    · rw [g.bases hold]
      exact hl.bases_ne t hold hne
    · obtain ⟨-, ancestors, metaclass, subtypes, -, -, hat⟩ := typeAt_define done
      rw [hat]
      exact c.parents_ne_nil
  · intro t ht hne
    rcases change.has ht with hold | ⟨c, bases, done⟩
    · rw [g.bases hold, g.ancestors hold,
        g.baseOrders fun b hb => hl.toHierarchy.has_base hold hb]
      exact hl.keeps t hold hne
    · obtain ⟨-, ancestors, metaclass, subtypes, hlin, -, hat⟩ := typeAt_define done
      rw [hat]
      change Keeps (h'.baseOrders c.parents) ancestors
      rw [g.baseOrders (has_parents hl.toHierarchy bases)]
      exact keeps_of_linearize hlin

/-! ## Lines -/

section

variable {h : Heap} (hl : h.Linearized)

include hl

theorem Linearized.base_sublist {t b : TypeRef} (ht : h.Has t) (hb : h.Derives t b) :
    (h.line b).Sublist (h.typeAt t).ancestors := by
  have hne : t ≠ .object := by
    rintro rfl
    rw [Derives, hl.root_bases] at hb
    exact absurd hb List.not_mem_nil
  exact (hl.keeps t ht hne).sublist _ (List.mem_append_left _ (List.mem_map_of_mem hb))

theorem Linearized.line_sublist {t a : TypeRef} (ht : h.Has t) (ha : a ∈ (h.typeAt t).ancestors) :
    (h.line a).Sublist (h.typeAt t).ancestors := by
  induction hn : t.index using Nat.strongRecOn generalizing t with
  | _ n ih =>
    obtain ⟨b, hb, hab⟩ := hl.ancestors t ht a ha
    have hsub := hl.base_sublist ht hb
    rcases mem_line.mp hab with rfl | hab
    · exact hsub
    · have hlt : b.index < t.index := hl.bases t ht b hb
      have hrec := ih b.index (by omega) (hl.toHierarchy.has_base ht hb) hab rfl
      exact (hrec.trans (List.sublist_cons_self b _)).trans hsub

theorem Linearized.lt_of_mem {t a : TypeRef} (ht : h.Has t) (ha : a ∈ (h.typeAt t).ancestors) :
    a.index < t.index := by
  obtain ⟨b, hb, hab⟩ := hl.ancestors t ht a ha
  have hlt : b.index < t.index := hl.bases t ht b hb
  have := hl.line_le b a (hl.toHierarchy.has_base ht hb) hab
  omega

theorem Linearized.nodup_ancestors {t : TypeRef} (ht : h.Has t) :
    (h.typeAt t).ancestors.Nodup := by
  by_cases hne : t = .object
  · rw [hne, hl.root_ancestors]
    exact List.nodup_nil
  · exact (hl.keeps t ht hne).nodup

theorem Linearized.not_mem_ancestors {t : TypeRef} (ht : h.Has t) : t ∉ (h.typeAt t).ancestors :=
  fun hin => Nat.lt_irrefl _ (hl.lt_of_mem ht hin)

theorem Linearized.nodup_line {t : TypeRef} (ht : h.Has t) : (h.line t).Nodup :=
  List.nodup_cons.mpr ⟨hl.not_mem_ancestors ht, hl.nodup_ancestors ht⟩

end

theorem getLast?_of_sublist {l m : List TypeRef} (hsub : l.Sublist m) (hm : m.Nodup) {x : TypeRef}
    (hlast : m.getLast? = some x) (hx : x ∈ l) : l.getLast? = some x := by
  obtain ⟨front, rfl⟩ := List.getLast?_eq_some_iff.mp hlast
  obtain ⟨l₁, l₂, rfl, hfront, hend⟩ := List.sublist_append_iff.mp hsub
  rcases List.sublist_singleton.mp hend with rfl | rfl
  · rw [List.append_nil] at hx
    have := List.disjoint_of_nodup_append hm (hfront.subset hx)
    simp at this
  · simp

theorem Linearized.getLast?_line {h : Heap} (hl : h.Linearized) {t : TypeRef} (ht : h.Has t) :
    (h.line t).getLast? = some .object := by
  induction hn : t.index using Nat.strongRecOn generalizing t with
  | _ n ih =>
    by_cases hne : t = .object
    · simp [line, hne, hl.root_ancestors]
    · obtain ⟨b, hb⟩ := List.exists_mem_of_ne_nil _ (hl.bases_ne t ht hne)
      have hsub := hl.base_sublist ht hb
      have hnil : (h.typeAt t).ancestors ≠ [] := List.ne_nil_of_mem (hsub.subset List.mem_cons_self)
      obtain ⟨x, hx⟩ := Option.ne_none_iff_exists'.mp (mt List.getLast?_eq_none_iff.mp hnil)
      -- The last ancestor stands in the line of a base, at the end of it.
      obtain ⟨d, hd, hxd⟩ := hl.ancestors t ht x (List.mem_of_getLast? hx)
      have hlt : d.index < t.index := hl.bases t ht d hd
      have hlast := getLast?_of_sublist (hl.base_sublist ht hd) (hl.nodup_ancestors ht) hx hxd
      rw [ih d.index (by omega) (hl.toHierarchy.has_base ht hd) rfl] at hlast
      rw [line, List.getLast?_cons, hx, ← hlast]
      rfl

/-! ## Reaching types through bases -/

theorem Hierarchy.reaches_of_mem {h : Heap} (hh : h.Hierarchy) {t a : TypeRef} (ht : h.Has t)
    (ha : a ∈ (h.typeAt t).ancestors) : TransGen h.Derives t a := by
  induction hn : t.index using Nat.strongRecOn generalizing t with
  | _ n ih =>
    obtain ⟨b, hb, hab⟩ := hh.ancestors t ht a ha
    have hlt : b.index < t.index := hh.bases t ht b hb
    rcases mem_line.mp hab with rfl | hab
    · exact .single hb
    · exact .head hb (ih b.index (by omega) (hh.has_base ht hb) hab rfl)

theorem has_of_derives {h : Heap} {t b : TypeRef} (hb : h.Derives t b) : h.Has t := by
  by_contra hnot
  rw [Derives, typeAt_of_not_has hnot] at hb
  exact absurd hb List.not_mem_nil

theorem has_of_mem_ancestors {h : Heap} {t a : TypeRef} (ha : a ∈ (h.typeAt t).ancestors) :
    h.Has t := by
  by_contra hnot
  rw [typeAt_of_not_has hnot] at ha
  exact absurd ha List.not_mem_nil

theorem Linearized.mem_of_reaches {h : Heap} (hl : h.Linearized) {t a : TypeRef}
    (reach : TransGen h.Derives t a) : a ∈ (h.typeAt t).ancestors := by
  induction reach using TransGen.head_induction_on with
  | single hb => exact (hl.base_sublist (has_of_derives hb) hb).subset List.mem_cons_self
  | head hb _ ih =>
    exact (hl.base_sublist (has_of_derives hb) hb).subset (List.mem_cons_of_mem _ ih)

theorem Linearized.mem_ancestors_iff {h : Heap} (hl : h.Linearized) {t a : TypeRef}
    (ht : h.Has t) : a ∈ (h.typeAt t).ancestors ↔ TransGen h.Derives t a :=
  ⟨hl.toHierarchy.reaches_of_mem ht, hl.mem_of_reaches⟩

theorem isSubtype_iff {h : Heap} {t u : TypeRef} : h.isSubtype t u = true ↔ u ∈ h.line t := by
  simp [isSubtype]

/-- Being a subtype is reaching through bases, also for what is no type. -/
theorem Linearized.isSubtype_iff_reaches {h : Heap} (hl : h.Linearized) {t u : TypeRef} :
    h.isSubtype t u = true ↔ ReflTransGen h.Derives t u := by
  rw [isSubtype_iff, mem_line, reflTransGen_iff_eq_or_transGen]
  by_cases ht : h.Has t
  · rw [hl.mem_ancestors_iff ht]
  · have hnone : ¬ TransGen h.Derives t u := by
      intro reach
      obtain ⟨b, hb, -⟩ := TransGen.head'_iff.mp reach
      exact ht (has_of_derives hb)
    have hempty : u ∉ (h.typeAt t).ancestors := fun hin => ht (has_of_mem_ancestors hin)
    simp [hempty, hnone]

theorem Linearized.isPartialOrder {h : Heap} (hl : h.Linearized) :
    IsPartialOrder TypeRef fun t u => h.isSubtype t u = true where
  refl t := hl.isSubtype_iff_reaches.mpr .refl
  trans t u v htu huv := by
    rw [hl.isSubtype_iff_reaches] at htu huv ⊢
    exact htu.trans huv
  antisymm t u htu hut := by
    rw [isSubtype_iff, mem_line] at htu hut
    rcases htu with rfl | htu
    · rfl
    rcases hut with rfl | hut
    · rfl
    have hlt := hl.lt_of_mem (has_of_mem_ancestors htu) htu
    have hgt := hl.lt_of_mem (has_of_mem_ancestors hut) hut
    omega

/-! ## Look-ups -/

theorem findSome?_eq_bind_find? {α β : Type} (f : α → Option β) (l : List α) :
    l.findSome? f = (l.find? fun x => (f x).isSome).bind f := by
  induction l with
  | nil => rfl
  | cons x rest ih =>
    rw [List.findSome?_cons, List.find?_cons]
    cases hx : f x <;> simp [hx, ih]

theorem lookup_eq_bind (h : Heap) (t : TypeRef) (name : String) :
    h.lookup t name = (h.definer? t name).bind (h.ownAttr · name) :=
  findSome?_eq_bind_find? _ _

theorem ownAttr_of_definer {h : Heap} {t x y : TypeRef} {name : String} {l : List TypeRef}
    (hx : h.definer? t name = some x) (hsub : (y :: l).Sublist (h.line t))
    (hnodup : (h.line t).Nodup)
    (hin : x ∈ l) : h.ownAttr y name = none := by
  obtain ⟨-, front, back, hline, hnone⟩ := List.find?_eq_some_iff_append.mp hx
  rw [hline] at hsub hnodup
  obtain ⟨l₁, l₂, hsplit, hfront, hback⟩ := List.sublist_append_iff.mp hsub
  have hy : y ∈ front := by
    cases l₁ with
    | cons z l₁ =>
      rw [List.cons_append, List.cons.injEq] at hsplit
      rw [hsplit.1]
      exact hfront.subset List.mem_cons_self
    | nil =>
      -- Then `x` stands behind another one in a part that starts with it.
      rw [List.nil_append] at hsplit
      subst hsplit
      have hrest : l.Sublist back := hback.tail
      have hnot := (List.nodup_cons.mp (List.Nodup.of_append_right hnodup)).1
      exact absurd (hrest.subset hin) hnot
  have := hnone y hy
  simpa using this

/-- What a look-up finds is not hidden: no strict subtype of its class that the type derives from
defines the attribute. -/
theorem Linearized.lookup_not_hidden {h : Heap} (hl : h.Linearized) {t : TypeRef} (ht : h.Has t)
    {name : String} {v : Value} (hv : h.lookup t name = some v) :
    ∃ x, h.definer? t name = some x ∧ h.ownAttr x name = some v ∧ h.isSubtype t x = true ∧
      ∀ y, y ≠ x → h.isSubtype y x = true → h.isSubtype t y = true →
        h.ownAttr y name = none := by
  rw [lookup_eq_bind] at hv
  obtain ⟨x, hx, hown⟩ := Option.bind_eq_some_iff.mp hv
  refine ⟨x, hx, hown, isSubtype_iff.mpr (List.mem_of_find?_eq_some hx), ?_⟩
  intro y hne hyx hty
  rw [isSubtype_iff, mem_line] at hyx hty
  have hin : x ∈ (h.typeAt y).ancestors := hyx.resolve_left (Ne.symm hne)
  refine ownAttr_of_definer hx ?_ (hl.nodup_line ht) hin
  rcases hty with rfl | hty
  · exact .refl _
  · exact (hl.line_sublist ht hty).trans (List.sublist_cons_self t _)

/-! ## Main theorem -/

/-- What the ancestors of a type are: a linear order of all types that it reaches through bases,
which ends with the root and keeps the line of each of them. The root itself has none. -/
structure Ordered (h : Heap) (t : TypeRef) : Prop where
  nodup : (h.typeAt t).ancestors.Nodup
  not_self : t ∉ (h.typeAt t).ancestors
  last : t ≠ .object → (h.typeAt t).ancestors.getLast? = some .object
  reaches : ∀ x, x ∈ (h.typeAt t).ancestors ↔ TransGen h.Derives t x
  monotone : ∀ a ∈ (h.typeAt t).ancestors, (h.line a).Sublist (h.line t)

theorem Linearized.ordered {h : Heap} (hl : h.Linearized) {t : TypeRef} (ht : h.Has t) :
    h.Ordered t := by
  refine ⟨hl.nodup_ancestors ht, hl.not_mem_ancestors ht, ?_, fun _ => hl.mem_ancestors_iff ht, ?_⟩
  · intro hne
    have hlast := hl.getLast?_line ht
    rw [line, List.getLast?_cons] at hlast
    cases hend : (h.typeAt t).ancestors.getLast? with
    | none => simp [hend, hne] at hlast
    | some x => simpa [hend] using hlast
  · exact fun _ ha => (hl.line_sublist ht ha).trans (List.sublist_cons_self t _)

namespace Timeline

variable {h : Nat → Heap}

theorem linearized (run : Timeline h) : ∀ n, (h n).Linearized :=
  run.invariant linearized_initial fun n => (run.step n).linearized

/-- At every moment of a run the hierarchy is well formed, whatever was defined before and whatever
definitions failed. -/
theorem hierarchy_well_formed (run : Timeline h) (n : Nat) :
    (∀ t, (h n).Has t → (h n).Ordered t) ∧
    (∀ t u, (h n).isSubtype t u = true ↔ ReflTransGen (h n).Derives t u) ∧
    IsPartialOrder TypeRef (fun t u => (h n).isSubtype t u = true) ∧
    ∀ t, (h n).Has t → ∀ name v, (h n).lookup t name = some v →
      ∃ x, (h n).definer? t name = some x ∧ (h n).ownAttr x name = some v ∧
        (h n).isSubtype t x = true ∧ ∀ y, y ≠ x → (h n).isSubtype y x = true →
          (h n).isSubtype t y = true → (h n).ownAttr y name = none := by
  have hl := run.linearized n
  exact ⟨fun t => hl.ordered, fun t u => hl.isSubtype_iff_reaches, hl.isPartialOrder,
    fun t ht name v => hl.lookup_not_hidden ht⟩

/-- Types 2 and 3 derive from type 1, and type 4 from both. Nothing can derive from types 1 and 2 in
this order, nor from type 4 twice. -/
def diamond : Nat → Heap
  | 0 => initial
  | 1 => (diamond 0).tryDefine { name := "A", attrs := [("x", .int 1)] }
  | 2 => (diamond 1).tryDefine { name := "B", bases := [⟨1⟩] }
  | 3 => (diamond 2).tryDefine { name := "C", bases := [⟨1⟩], attrs := [("x", .int 3)] }
  | 4 => (diamond 3).tryDefine { name := "D", bases := [⟨2⟩, ⟨3⟩] }
  | 5 => (diamond 4).tryDefine { name := "E", bases := [⟨1⟩, ⟨2⟩] }
  | 6 => (diamond 5).tryDefine { name := "F", bases := [⟨4⟩, ⟨4⟩] }
  | n + 7 => diamond (n + 6)

theorem diamond_timeline : Timeline diamond := by
  refine ⟨⟨_, rfl⟩, ?_⟩
  rintro (_ | _ | _ | _ | _ | _ | n)
  · exact .tryDefine (by simp) (by simp)
  · exact .tryDefine (by decide +kernel) (by simp)
  · exact .tryDefine (by decide +kernel) (by simp)
  · exact .tryDefine (by decide +kernel) (by simp)
  · exact .tryDefine (by decide +kernel) (by simp)
  · exact .tryDefine (by decide +kernel) (by simp)
  · exact .idle _

theorem diamond_well_formed :
    (diamond 6).types.size = 5 ∧ (diamond 6).Ordered ⟨4⟩ ∧
      ((diamond 6).typeAt ⟨4⟩).ancestors = [⟨2⟩, ⟨3⟩, ⟨1⟩, .object] ∧
      ∃ x, (diamond 6).definer? ⟨4⟩ "x" = some x ∧ (diamond 6).ownAttr x "x" = some (.int 3) := by
  obtain ⟨ordered, -, -, found⟩ := hierarchy_well_formed diamond_timeline 6
  obtain ⟨x, hx, hown, -⟩ := found ⟨4⟩ (by decide +kernel) "x" (.int 3) (by decide +kernel)
  exact ⟨by decide +kernel, ordered ⟨4⟩ (by decide +kernel), by decide +kernel, x, hx, hown⟩

end Timeline

end InlineCache.Heap
