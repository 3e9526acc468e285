import InlineCache.Proofs.Links

/-! # Paths down

`refresh` knows no visited types: it goes down every path, depth first and oldest first, and draws a
version at the end of each. As links lead to later types only, there is an end to that. -/

namespace InlineCache.Heap

/-- A path down from a type: the type itself, then one linked below it, and so on. -/
inductive Descent (h : Heap) : TypeRef → List TypeRef → Prop
  | here (t : TypeRef) : Descent h t [t]
  | down {t u : TypeRef} {p : List TypeRef} (sub : u ∈ (h.typeAt t).subtypes)
      (rest : Descent h u p) : Descent h t (t :: p)

/-- A path comes before all that go on from it, and before one that parts from it towards a type
that was created later. -/
def Precedes : List TypeRef → List TypeRef → Prop := List.Lex fun t u => t.index < u.index

/-- The paths down from a type that have so many types on them at most. -/
def descend (h : Heap) : (depth : Nat) → TypeRef → List (List TypeRef)
  | 0, _ => []
  | depth + 1, t => [t] :: ((h.typeAt t).subtypes.flatMap (h.descend depth)).map (t :: ·)

def descents (h : Heap) (t : TypeRef) : List (List TypeRef) := h.descend h.types.size t

/-- Every link leads to a later type. -/
def Forward (h : Heap) : Prop :=
  ∀ t, ∀ u ∈ (h.typeAt t).subtypes, t.index < u.index ∧ h.Has u

theorem Links.forward {h : Heap} (links : h.Links) (hh : h.Hierarchy) : h.Forward := by
  intro t u hu
  have hb := (links.mem_iff hh).mp hu
  exact ⟨hh.bases u (has_of_derives hb) t hb, has_of_derives hb⟩

/-! ## Which paths there are -/

theorem Descent.eq_cons {h : Heap} {t : TypeRef} {p : List TypeRef} (path : h.Descent t p) :
    ∃ q, p = t :: q := by
  cases path with
  | here => exact ⟨[], rfl⟩
  | down _ _ => exact ⟨_, rfl⟩

theorem Descent.length_le {h : Heap} (forward : h.Forward) {t : TypeRef} (ht : h.Has t)
    {p : List TypeRef} (path : h.Descent t p) : p.length + t.index ≤ h.types.size := by
  induction path with
  | here t =>
    rw [Has] at ht
    rw [List.length_singleton]
    omega
  | @down t u p sub _ ih =>
    obtain ⟨hlt, hu⟩ := forward t u sub
    have := ih hu
    rw [List.length_cons]
    omega

theorem mem_descend {h : Heap} {depth : Nat} {t : TypeRef} {p : List TypeRef} :
    p ∈ h.descend depth t ↔ h.Descent t p ∧ p.length ≤ depth := by
  induction depth generalizing t p with
  | zero =>
    simp only [descend, List.not_mem_nil, false_iff, Nat.le_zero, List.length_eq_zero_iff]
    rintro ⟨path, rfl⟩
    cases path
  | succ depth ih =>
    simp only [descend, List.mem_cons, List.mem_map, List.mem_flatMap, ih]
    constructor
    · rintro (rfl | ⟨q, ⟨u, sub, path, hlen⟩, rfl⟩)
      · exact ⟨.here t, Nat.succ_pos _⟩
      · exact ⟨.down sub path, Nat.succ_le_succ hlen⟩
    · rintro ⟨path, hlen⟩
      cases path with
      | here => exact Or.inl rfl
      | down sub rest => exact Or.inr ⟨_, ⟨_, sub, rest, Nat.le_of_succ_le_succ hlen⟩, rfl⟩

theorem ne_nil_of_mem_descend {h : Heap} {depth : Nat} {t : TypeRef} {p : List TypeRef}
    (hp : p ∈ h.descend depth t) : p ≠ [] := by
  obtain ⟨q, rfl⟩ := (mem_descend.mp hp).1.eq_cons
  exact List.cons_ne_nil t q

theorem mem_descents {h : Heap} (forward : h.Forward) {t : TypeRef} (ht : h.Has t)
    {p : List TypeRef} : p ∈ h.descents t ↔ h.Descent t p := by
  rw [descents, mem_descend]
  refine ⟨And.left, fun path => ⟨path, ?_⟩⟩
  exact (Nat.le_add_right _ _).trans (path.length_le forward ht)

theorem Links.descend_ordered {h : Heap} (links : h.Links) (depth : Nat) (t : TypeRef) :
    (h.descend depth t).Pairwise Precedes := by
  induction depth generalizing t with
  | zero => exact .nil
  | succ depth ih =>
    rw [descend, List.pairwise_cons, List.pairwise_map]
    constructor
    · intro p hp
      obtain ⟨q, hq, rfl⟩ := List.mem_map.mp hp
      obtain ⟨u, -, hq⟩ := List.mem_flatMap.mp hq
      obtain ⟨q, rfl⟩ := (mem_descend.mp hq).1.eq_cons
      exact .cons .nil
    · refine List.Pairwise.imp (fun before => List.Lex.cons before) (List.pairwise_flatMap.mpr ?_)
      refine ⟨fun u _ => ih u, (links.sorted t).imp ?_⟩
      intro u v hlt p hp q hq
      obtain ⟨p, rfl⟩ := (mem_descend.mp hp).1.eq_cons
      obtain ⟨q, rfl⟩ := (mem_descend.mp hq).1.eq_cons
      exact .rel hlt

theorem Linearized.isSubtype_iff_descent {h : Heap} (hl : h.Linearized) (links : h.Links)
    {t u : TypeRef} :
    h.isSubtype u t = true ↔ ∃ p, h.Descent t p ∧ p.getLast? = some u := by
  rw [hl.isSubtype_iff_reaches]
  constructor
  · intro reach
    induction reach with
    | refl => exact ⟨[u], .here u, rfl⟩
    | @tail s t _ hb ih =>
      obtain ⟨p, path, hend⟩ := ih
      obtain ⟨q, rfl⟩ := path.eq_cons
      exact ⟨t :: s :: q, .down ((links.mem_iff hl.toHierarchy).mpr hb) path, hend⟩
  · rintro ⟨p, path, hend⟩
    induction path with
    | here t =>
      obtain rfl : t = u := by simpa using hend
      exact .refl
    | @down t s p sub rest ih =>
      obtain ⟨q, rfl⟩ := rest.eq_cons
      exact (ih hend).tail ((links.mem_iff hl.toHierarchy).mp sub)

/-! ## A walk without a bound -/

/-- The walk that `refresh` stands for, with the types that it still has to go down from. It has no
bound, so it comes to a heap only if it ends. -/
inductive Walk : Heap → List TypeRef → Heap → Prop
  | done (h : Heap) : Walk h [] h
  | next {h h' : Heap} {t : TypeRef} {todo : List TypeRef}
      (rest : Walk (h.drawVersion t) ((h.typeAt t).subtypes ++ todo) h') : Walk h (t :: todo) h'

theorem Draws.has_iff {h h' : Heap} (d : Draws h h') (t : TypeRef) : h'.Has t ↔ h.Has t := by
  rw [Has, Has, d.same.size]

theorem Draws.subtypes {h h' : Heap} (d : Draws h h') (t : TypeRef) :
    (h'.typeAt t).subtypes = (h.typeAt t).subtypes := by
  rw [d.same.type t]

theorem Draws.forward {h h' : Heap} (d : Draws h h') (forward : h.Forward) : h'.Forward := by
  intro t u hu
  rw [d.subtypes] at hu
  rw [d.has_iff]
  exact forward t u hu

/-- To go down from types one after the other, it is enough to go down from each. -/
theorem walk_foldl {depth size : Nat} {h' : Heap}
    (one : ∀ {g t todo}, g.Forward → g.types.size = size → g.Has t → size ≤ depth + t.index →
      Walk (g.refresh depth t) todo h' → Walk g (t :: todo) h')
    {g : Heap} (forward : g.Forward) (hsize : g.types.size = size) {l todo : List TypeRef}
    (hl : ∀ t ∈ l, g.Has t ∧ size ≤ depth + t.index)
    (rest : Walk (l.foldl (refresh depth) g) todo h') : Walk g (l ++ todo) h' := by
  induction l generalizing g with
  | nil => exact rest
  | cons t l ih =>
    obtain ⟨⟨ht, deep⟩, hl⟩ := List.forall_mem_cons.mp hl
    have on := draws_refresh depth g t
    apply one forward hsize ht deep
    apply ih (on.forward forward) (on.same.size.trans hsize) ?_ rest
    exact fun u hu => ⟨(on.has_iff u).mpr (hl u hu).1, (hl u hu).2⟩

/-- The bound never cuts the walk off: no path is longer than there are types. -/
theorem walk_refresh {depth size : Nat} {g h' : Heap} {t : TypeRef} {todo : List TypeRef}
    (forward : g.Forward) (hsize : g.types.size = size) (ht : g.Has t)
    (deep : size ≤ depth + t.index) (rest : Walk (g.refresh depth t) todo h') :
    Walk g (t :: todo) h' := by
  induction depth generalizing g t todo with
  | zero =>
    rw [Has] at ht
    omega
  | succ depth ih =>
    have drawn : Draws g (g.drawVersion t) := .single ⟨t, rfl⟩
    apply Walk.next
    apply walk_foldl ih (drawn.forward forward) (drawn.same.size.trans hsize) ?_ rest
    intro u hu
    obtain ⟨hlt, hu⟩ := forward t u hu
    exact ⟨(drawn.has_iff u).mpr hu, by omega⟩

theorem walk_invalidate {h : Heap} (forward : h.Forward) {t : TypeRef} (ht : h.Has t) :
    Walk h [t] (h.invalidate t) :=
  walk_refresh forward rfl ht (Nat.le_add_right _ _) (.done _)

/-! ## One version on each path -/

/-- Draws a version for the type at the end of a path. -/
def drawEnd (h : Heap) (p : List TypeRef) : Heap := (p.getLast?.map h.drawVersion).getD h

theorem draws_drawEnd (h : Heap) (p : List TypeRef) : Draws h (h.drawEnd p) := by
  unfold drawEnd
  cases p.getLast? with
  | none => exact .refl
  | some t => exact .single ⟨t, rfl⟩

theorem drawEnd_cons (h : Heap) (t : TypeRef) {p : List TypeRef} (hp : p ≠ []) :
    h.drawEnd (t :: p) = h.drawEnd p := by
  rw [drawEnd, drawEnd, List.getLast?_cons_of_ne_nil hp]

/-- The same types are linked below each type. -/
def SameLinks (g h : Heap) : Prop := ∀ t, (g.typeAt t).subtypes = (h.typeAt t).subtypes

theorem Draws.sameLinks {g g' h : Heap} (d : Draws g g') (same : SameLinks g h) :
    SameLinks g' h :=
  fun t => (d.subtypes t).trans (same t)

theorem foldl_refresh {h : Heap} {depth : Nat}
    (one : ∀ {g}, SameLinks g h → ∀ t, g.refresh depth t = (h.descend depth t).foldl drawEnd g)
    {g : Heap} (same : SameLinks g h) (l : List TypeRef) :
    l.foldl (refresh depth) g = (l.flatMap (h.descend depth)).foldl drawEnd g := by
  induction l generalizing g with
  | nil => rfl
  | cons t l ih =>
    rw [List.foldl_cons, ih ((draws_refresh depth g t).sameLinks same), one same, List.flatMap_cons,
      List.foldl_append]

/-- Refreshing a type draws a version at the end of each path, one after the other. -/
theorem refresh_eq_foldl {g h : Heap} {depth : Nat} (same : SameLinks g h) (t : TypeRef) :
    g.refresh depth t = (h.descend depth t).foldl drawEnd g := by
  induction depth generalizing g t with
  | zero => rfl
  | succ depth ih =>
    have drawn : Draws g (g.drawVersion t) := .single ⟨t, rfl⟩
    have hext : ∀ (g : Heap), ∀ p ∈ (h.typeAt t).subtypes.flatMap (h.descend depth),
        g.drawEnd (t :: p) = g.drawEnd p := by
      intro g p hp
      obtain ⟨u, -, hp⟩ := List.mem_flatMap.mp hp
      exact drawEnd_cons g t (ne_nil_of_mem_descend hp)
    rw [refresh, descend, List.foldl_cons, List.foldl_map, List.foldl_ext _ _ _ hext,
      foldl_refresh ih (drawn.sameLinks same), same t]
    rfl

/-! ## What is drawn -/

section

variable {paths : List (List TypeRef)} (full : ∀ p ∈ paths, p ≠ []) (h : Heap)

theorem draws_foldl_drawEnd (paths : List (List TypeRef)) (h : Heap) :
    Draws h (paths.foldl drawEnd h) :=
  draws_foldl draws_drawEnd paths h

include full

theorem versions_foldl_drawEnd :
    (paths.foldl drawEnd h).versions = h.versions + paths.length := by
  induction paths generalizing h with
  | nil => rfl
  | cons p rest ih =>
    obtain ⟨hp, full⟩ := List.forall_mem_cons.mp full
    obtain ⟨t, hend⟩ := Option.ne_none_iff_exists'.mp (mt List.getLast?_eq_none_iff.mp hp)
    rw [List.foldl_cons, ih full, drawEnd, hend, List.length_cons]
    change h.versions + 1 + _ = _
    omega

omit full

theorem version_foldl_of_not_end {u : TypeRef} (none : ∀ p ∈ paths, p.getLast? ≠ some u) :
    ((paths.foldl drawEnd h).typeAt u).version = (h.typeAt u).version := by
  induction paths generalizing h with
  | nil => rfl
  | cons p rest ih =>
    obtain ⟨hp, none⟩ := List.forall_mem_cons.mp none
    rw [List.foldl_cons, ih _ none, drawEnd]
    cases hend : p.getLast? with
    | none => rfl
    | some t =>
      have hne : t ≠ u := fun heq => hp (by rw [hend, heq])
      change ((h.drawVersion t).typeAt u).version = _
      rw [typeAt_drawVersion, if_neg fun both => hne both.1]

theorem version_foldl_of_last {pre post : List (List TypeRef)} {p : List TypeRef} {u : TypeRef}
    (full : ∀ q ∈ pre, q ≠ []) (hu : h.Has u) (hend : p.getLast? = some u)
    (last : ∀ q ∈ post, q.getLast? ≠ some u) :
    (((pre ++ p :: post).foldl drawEnd h).typeAt u).version =
      versionTag (h.versions + pre.length) := by
  have hu := ((draws_foldl_drawEnd pre h).has_iff u).mpr hu
  rw [List.foldl_append, List.foldl_cons, version_foldl_of_not_end _ last, drawEnd, hend]
  change ((Heap.drawVersion _ u).typeAt u).version = _
  rw [typeAt_drawVersion, if_pos ⟨rfl, hu⟩, versions_foldl_drawEnd full]

end

end InlineCache.Heap
