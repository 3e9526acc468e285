import InlineCache.Proofs.Cached
import Mathlib.Data.Finset.Card
import Mathlib.Data.Finset.Image

/-! # Which relays live

Whether a relay lives is found out in a bounded walk. The bound is never what ends it: the walk
finds every relay that lives, and no other. -/

namespace InlineCache.Caches

/-! ## Walks -/

section

variable {α : Type} [DecidableEq α] {next : α → List α}

theorem forall_mem_reach {P : α → Prop} (steps : ∀ x, P x → ∀ y ∈ next x, P y) {n : Nat}
    {seen work : List α} (hseen : ∀ x ∈ seen, P x) (hwork : ∀ x ∈ work, P x) :
    ∀ x ∈ reach next n seen work, P x := by
  induction n generalizing seen work with
  | zero => exact hseen
  | succ n ih =>
    cases work with
    | nil => exact hseen
    | cons x work =>
      obtain ⟨hx, hwork⟩ := List.forall_mem_cons.mp hwork
      unfold reach
      split
      · exact ih hseen hwork
      · exact ih (List.forall_mem_cons.mpr ⟨hx, hseen⟩)
          (List.forall_mem_append.mpr ⟨steps x hx, hwork⟩)

/-- How long a walk can still take, if each place leads to two others at most. -/
def stepsLeft (places : Finset α) (seen work : List α) : Nat :=
  work.length + 2 * (places \ seen.toFinset).card

theorem stepsLeft_cons {places : Finset α} (two : ∀ x, (next x).length ≤ 2)
    (outside : ∀ x, x ∉ places → next x = []) {x : α} {seen : List α} (new : x ∉ seen)
    (work : List α) :
    stepsLeft places (x :: seen) (next x ++ work) < stepsLeft places seen (x :: work) := by
  unfold stepsLeft
  rw [List.toFinset_cons, Finset.sdiff_insert, List.length_append, List.length_cons]
  by_cases hx : x ∈ places
  · have hmem : x ∈ places \ seen.toFinset := by simp [hx, new]
    have hless := Finset.card_erase_lt_of_mem hmem
    have hnext := two x
    omega
  · have hless := Finset.card_erase_le (a := x) (s := places \ seen.toFinset)
    rw [outside x hx, List.length_nil]
    omega

/-- A walk with enough steps misses nothing. -/
theorem reach_closed {places : Finset α} (two : ∀ x, (next x).length ≤ 2)
    (outside : ∀ x, x ∉ places → next x = []) {n : Nat} {seen work : List α}
    (enough : stepsLeft places seen work ≤ n)
    (known : ∀ x ∈ seen, ∀ y ∈ next x, y ∈ seen ∨ y ∈ work) :
    (∀ x, x ∈ seen ∨ x ∈ work → x ∈ reach next n seen work) ∧
      ∀ x ∈ reach next n seen work, ∀ y ∈ next x, y ∈ reach next n seen work := by
  induction n generalizing seen work with
  | zero =>
    obtain rfl : work = [] := by
      unfold stepsLeft at enough
      exact List.length_eq_zero_iff.mp (by omega)
    unfold reach
    simpa using known
  | succ n ih =>
    cases work with
    | nil =>
      unfold reach
      simpa using known
    | cons x work =>
      unfold reach
      split
      · rename_i old
        have left : stepsLeft places seen work ≤ n := by
          unfold stepsLeft at enough ⊢
          rw [List.length_cons] at enough
          omega
        have still : ∀ y, y ∈ seen ∨ y ∈ x :: work → y ∈ seen ∨ y ∈ work := by
          rintro y (h | h)
          · exact Or.inl h
          · rcases List.mem_cons.mp h with rfl | h
            · exact Or.inl old
            · exact Or.inr h
        obtain ⟨covers, closed⟩ := ih left fun y hy z hz => still z (known y hy z hz)
        exact ⟨fun y hy => covers y (still y hy), closed⟩
      · rename_i new
        have left := Nat.lt_of_lt_of_le (stepsLeft_cons two outside new work) enough
        have still : ∀ y, y ∈ seen ∨ y ∈ x :: work → y ∈ x :: seen ∨ y ∈ next x ++ work := by
          simp only [List.mem_cons, List.mem_append]
          tauto
        obtain ⟨covers, closed⟩ := ih (Nat.le_of_lt_succ left) fun y hy z hz => by
          rcases List.mem_cons.mp hy with rfl | hy
          · exact Or.inr (List.mem_append_left _ hz)
          · exact still z (known y hy z hz)
        exact ⟨fun y hy => covers y (still y hy), closed⟩

end

/-! ## Relays -/

/-- A relay lives as long as somebody holds it, or a shortcut that lives goes through it. A shortcut
lives as long as it is filed or held, or is the target of a call site that is held or belongs to a
relay that lives. -/
inductive Lives (c : Caches) (hands : List RelayRef) : RelayRef → Prop
  | hand {r : RelayRef} (hand : r ∈ hands) : Lives c hands r
  | held {r : RelayRef} (held : r ∈ c.held.relays) : Lives c hands r
  | root {k : ShortcutRef} {r : RelayRef} (root : k ∈ c.rootShortcuts)
      (through : r ∈ (c.shortcutAt k).relays) : Lives c hands r
  | target {r' r : RelayRef} {site : CallSiteRef} {k : ShortcutRef} (lives : Lives c hands r')
      (own : (c.relayAt r').site = some site) (aim : c.targetShortcut? site = some k)
      (through : r ∈ (c.shortcutAt k).relays) : Lives c hands r

theorem mem_kept_iff {c : Caches} {r r' : RelayRef} : r ∈ c.kept r' ↔
    ∃ site k, (c.relayAt r').site = some site ∧ c.targetShortcut? site = some k ∧
      r ∈ (c.shortcutAt k).relays := by
  unfold kept
  cases (c.relayAt r').site with
  | none => simp
  | some site => cases h : c.targetShortcut? site <;> simp [h]

theorem length_relays_le (k : Shortcut) : k.relays.length ≤ 2 := by
  unfold Shortcut.relays
  cases k.allocate <;> cases k.initializer <;> simp

theorem length_kept_le (c : Caches) (r : RelayRef) : (c.kept r).length ≤ 2 := by
  unfold kept
  cases (c.relayAt r).site.bind c.targetShortcut? with
  | none => exact Nat.zero_le _
  | some k => exact length_relays_le _

def allRelays (c : Caches) : Finset RelayRef := (Finset.range c.relays.size).image RelayRef.mk

theorem relayAt_of_le {c : Caches} {r : RelayRef} (hr : c.relays.size ≤ r.index) :
    c.relayAt r = default := by
  unfold relayAt
  rw [Array.getD_eq_getD_getElem?, Array.getElem?_eq_none hr]
  rfl

theorem kept_of_not_mem {c : Caches} {r : RelayRef} (hr : r ∉ c.allRelays) : c.kept r = [] := by
  have hle : c.relays.size ≤ r.index := by
    by_contra hlt
    exact hr (Finset.mem_image.mpr ⟨r.index, Finset.mem_range.mpr (by omega), rfl⟩)
  unfold kept
  rw [relayAt_of_le hle]
  rfl

/-- The walk finds exactly the relays that live. -/
theorem isLive_iff {c : Caches} {hands : List RelayRef} {r : RelayRef} :
    c.isLive hands r = true ↔ c.Lives hands r := by
  have enough : stepsLeft c.allRelays [] (c.rootRelays hands) ≤
      (c.rootRelays hands).length + 2 * c.relays.size + 1 := by
    have hcard : (c.allRelays \ ([] : List RelayRef).toFinset).card ≤ c.relays.size :=
      (Finset.card_le_card Finset.sdiff_subset).trans
        (Finset.card_image_le.trans_eq (Finset.card_range _))
    unfold stepsLeft
    omega
  obtain ⟨covers, closed⟩ := reach_closed (length_kept_le c) (fun _ => kept_of_not_mem) enough
    (by simp)
  unfold isLive live
  rw [List.contains_iff_mem]
  constructor
  · refine forall_mem_reach (fun x lives y hy => ?_) (by simp) (fun x hx => ?_) r
    · obtain ⟨site, k, own, aim, through⟩ := mem_kept_iff.mp hy
      exact .target lives own aim through
    · rcases List.mem_append.mp hx with hx | hx
      · exact (List.mem_append.mp hx).elim .hand .held
      · obtain ⟨k, root, through⟩ := List.mem_flatMap.mp hx
        exact .root root through
  · intro lives
    induction lives with
    | hand hand => exact covers _ (Or.inr (by simp [rootRelays, hand]))
    | held held => exact covers _ (Or.inr (by simp [rootRelays, held]))
    | root root through =>
      refine covers _ (Or.inr (List.mem_append_right _ ?_))
      exact List.mem_flatMap.mpr ⟨_, root, through⟩
    | target lives own aim through ih =>
      exact closed _ ih _ (mem_kept_iff.mpr ⟨_, _, own, aim, through⟩)

theorem Lives.mono {c c' : Caches} {hands hands' : List RelayRef} {r : RelayRef}
    (lives : c.Lives hands r) (hhands : hands ⊆ hands') (hheld : c'.held = c.held)
    (hfiled : c.filed ⊆ c'.filed) (hsites : c'.sites = c.sites)
    (hshortcuts : c'.shortcuts = c.shortcuts)
    (hown : ∀ r site, (c.relayAt r).site = some site → (c'.relayAt r).site = some site) :
    c'.Lives hands' r := by
  have hat : ∀ k, c'.shortcutAt k = c.shortcutAt k := fun k => by
    rw [shortcutAt, shortcutAt, hshortcuts]
  have haim : c'.targetShortcut? = c.targetShortcut? := funext fun site => by
    rw [targetShortcut?, targetShortcut?, siteAt, siteAt, hsites]
  have hroot : c.rootShortcuts ⊆ c'.rootShortcuts := by
    unfold rootShortcuts
    rw [hheld, haim]
    intro k hk
    rw [List.mem_append, List.mem_append] at hk ⊢
    exact hk.imp_left (Or.imp_left fun filed => hfiled filed)
  induction lives with
  | hand hand => exact .hand (hhands hand)
  | held held => exact .held (hheld ▸ held)
  | root root through => exact .root (hroot root) (hat _ ▸ through)
  | target _ own aim through ih =>
    exact .target ih (hown _ _ own) (haim ▸ aim) (hat _ ▸ through)

end InlineCache.Caches
