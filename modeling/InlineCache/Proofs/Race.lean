import InlineCache.Proofs.Stock

/-! # Builders that race

Whatever the order of their steps, builders that ask for shortcuts of one shelf at once build one
for each key that has none, and all that ask for the same key get the same one. -/

namespace InlineCache

open Caches

variable {h : Heap} {s : SpecializerRef} {l : LayoutId} {c c' : Caches} {b b' : Builder}

/-! ## Where builders stand -/

namespace Phase

def locked : Phase → Bool
  | .checking | .building | .filing _ | .leaving _ => true
  | .asking | .waiting | .done _ => false

theorem busy_of_locked {p : Phase} (holds : p.locked = true) : p.answer? = none ∧ p ≠ .waiting := by
  cases p with
  | checking | building | filing | leaving => simp [answer?]
  | asking | waiting | done => simp [locked] at holds

/-- How many shortcuts the builder has built and not filed yet. -/
def unfiled : Phase → Nat
  | .filing _ => 1
  | _ => 0

def answers : Phase → Nat
  | .leaving _ | .done _ => 1
  | _ => 0

/-- How many steps the builder has to take yet if it need not wait. -/
def remaining : Phase → Nat
  | .asking => 6
  | .waiting => 5
  | .checking => 4
  | .building => 3
  | .filing _ => 2
  | .leaving _ => 1
  | .done _ => 0

theorem counts_of_answer? {p : Phase} (done : p.answer?.isSome) :
    p.unfiled = 0 ∧ p.answers = 1 := by
  cases p with
  | done => exact ⟨rfl, rfl⟩
  | asking | waiting | checking | building | filing | leaving => simp [answer?] at done

end Phase

/-- What a builder knows where it stands. Between its second look and filing, nobody else files. -/
def Builder.Knows (b : Builder) (h : Heap) (s : SpecializerRef) (l : LayoutId) (c : Caches) :
    Prop :=
  match b.phase with
  | .asking | .waiting | .checking => True
  | .building => b.found? h s l c = none
  | .filing k => b.found? h s l c = none ∧ k.version = (h.typeAt b.type).version
  | .leaving a | .done a => ∃ k, a = .ok (.ok k) ∧ b.found? h s l c = some k

theorem Builder.knows_of_prepares (p : Prepares c c') (b : Builder) :
    b.Knows h s l c' ↔ b.Knows h s l c := by
  unfold Knows
  rw [found?_of_prepares p]

theorem Builder.Knows.mono (knows : b.Knows h s l c) (unlocked : b.phase.locked = false)
    (stays : ∀ k, b.found? h s l c = some k → b.found? h s l c' = some k) :
    b.Knows h s l c' := by
  unfold Builder.Knows at knows ⊢
  cases hphase : b.phase with
  | asking | waiting => trivial
  | done a =>
    rw [hphase] at knows
    obtain ⟨k, rfl, hk⟩ := knows
    exact ⟨k, rfl, stays k hk⟩
  | checking | building | filing | leaving => simp [hphase, Phase.locked] at unlocked

theorem sum_map_set {α : Type} {f : α → Nat} {xs : List α} {i : Nat} {x : α}
    (hx : xs[i]? = some x) (y : α) :
    ((xs.set i y).map f).sum + f x = (xs.map f).sum + f y := by
  induction xs generalizing i with
  | nil => simp at hx
  | cons z rest ih =>
    cases i with
    | zero =>
      obtain rfl : z = x := by simpa using hx
      simp
      omega
    | succ i =>
      have := ih (i := i) (by simpa using hx)
      simp only [List.set_cons_succ, List.map_cons, List.sum_cons]
      omega

namespace Race

variable {start r : Race} {i : Nat}

/-! ## What builders do -/

/-- What holds after any steps. -/
structure Invariant (h : Heap) (s : SpecializerRef) (l : LayoutId) (start r : Race) : Prop where
  stocked : Stocked h s l start r.caches
  same : r.builders.map Builder.ask = start.builders.map Builder.ask
  lock : ∀ i b, r.builders[i]? = some b → (r.holder = some i ↔ b.phase.locked = true)
  holder : ∀ i, r.holder = some i → i < r.builders.length
  knows : ∀ b ∈ r.builders, b.Knows h s l r.caches
  builds : ∃ n, (r.caches.counters s).siteBuilds =
      (start.caches.counters s).siteBuilds + UInt64.ofNat n ∧
    n + (r.caches.missing h s l start.builders).card =
      (start.caches.missing h s l start.builders).card + (r.builders.map (·.phase.unfiled)).sum
  reuses : ∃ n, (r.caches.counters s).cacheReuses =
      (start.caches.counters s).cacheReuses + UInt64.ofNat n ∧
    n + (start.caches.missing h s l start.builders).card =
      (r.caches.missing h s l start.builders).card + (r.builders.map (·.phase.answers)).sum

theorem Ready.invariant (ready : Ready h s l start) : Invariant h s l start start := by
  have zero : ∀ f : Phase → Nat, f .asking = 0 →
      (start.builders.map fun b => f b.phase).sum = 0 := by
    intro f hf
    rw [List.sum_eq_zero_iff]
    intro n hn
    obtain ⟨b, hb, rfl⟩ := List.mem_map.mp hn
    rw [ready.asking b hb, hf]
  refine ⟨ready.stocked, rfl, ?_, by simp [ready.free], ?_, ⟨0, by simp, ?_⟩, ⟨0, by simp, ?_⟩⟩
  · intro i b hb
    rw [ready.free, ready.asking b (List.mem_of_getElem? hb)]
    simp [Phase.locked]
  · intro b hb
    unfold Builder.Knows
    rw [ready.asking b hb]
    trivial
  · rw [zero Phase.unfiled rfl, Nat.add_zero, Nat.zero_add]
  · rw [zero Phase.answers rfl, Nat.add_zero, Nat.zero_add]

theorem Invariant.asked (inv : Invariant h s l start r) (hb : b ∈ r.builders) :
    ∃ b₀ ∈ start.builders, b₀.ask = b.ask := by
  have hin := List.mem_map_of_mem (f := Builder.ask) hb
  rw [inv.same] at hin
  exact List.mem_map.mp hin

theorem Invariant.eligible (inv : Invariant h s l start r) (ready : Ready h s l start)
    (hb : b ∈ r.builders) :
    (∃ rec, h.recipe (r.caches.settings s) b.shape b.type = .ok rec) ∧
      (h.layoutOf b.type).id = l := by
  obtain ⟨b₀, hb₀, hask⟩ := inv.asked hb
  obtain ⟨hshape, htype⟩ := Prod.mk.inj hask
  rw [inv.stocked.grows.settings s ready.specializer]
  have recipe := ready.eligible b₀ hb₀
  have shelf := ready.shelf b₀ hb₀
  rw [hshape, htype] at recipe
  rw [htype] at shelf
  exact ⟨recipe, shelf⟩

theorem ask_set {builders : List Builder} (hb : builders[i]? = some b) (p : Phase) :
    (builders.set i { b with phase := p }).map Builder.ask = builders.map Builder.ask := by
  rw [List.map_set]
  apply List.ext_getElem?
  intro j
  rw [List.getElem?_set]
  split
  · rename_i hij
    subst hij
    split
    · simp [hb, Builder.ask]
    · rename_i hlt
      simp [List.getElem?_eq_none (not_lt.mp hlt)]
  · rfl

theorem Invariant.lock_set (inv : Invariant h s l start r) {holder : Option Nat} {p : Phase}
    (others : ∀ j, j ≠ i → (holder = some j ↔ r.holder = some j))
    (own : holder = some i ↔ p.locked = true) (j : Nat) (b' : Builder)
    (hb' : (r.builders.set i { b with phase := p })[j]? = some b') :
    holder = some j ↔ b'.phase.locked = true := by
  rw [List.getElem?_set] at hb'
  split at hb'
  · rename_i hij
    subst hij
    split at hb'
    · cases hb'
      exact own
    · simp at hb'
  · rename_i hij
    rw [others j (Ne.symm hij)]
    exact inv.lock j b' hb'

theorem Invariant.move (inv : Invariant h s l start r) (hb : r.builders[i]? = some b) {c : Caches}
    {p : Phase} {holder : Option Nat} (prepares : Prepares r.caches c) (sound : c.Sound h)
    (others : ∀ j, j ≠ i → (holder = some j ↔ r.holder = some j))
    (own : holder = some i ↔ p.locked = true)
    (knows : Builder.Knows { b with phase := p } h s l r.caches) {n m : Nat}
    (builds : (c.counters s).siteBuilds = (r.caches.counters s).siteBuilds + UInt64.ofNat n)
    (hn : n + b.phase.unfiled = p.unfiled)
    (reuses : (c.counters s).cacheReuses = (r.caches.counters s).cacheReuses + UInt64.ofNat m)
    (hm : m + b.phase.answers = p.answers) :
    Invariant h s l start ⟨c, r.builders.set i { b with phase := p }, holder⟩ := by
  refine ⟨inv.stocked.prepared prepares sound, (ask_set hb p).trans inv.same,
    inv.lock_set others own, ?_, ?_, ?_, ?_⟩
  · intro j hj
    rw [List.length_set]
    by_cases hij : j = i
    · exact hij ▸ (List.getElem?_eq_some_iff.mp hb).1
    · exact inv.holder j ((others j hij).mp hj)
  · intro b' hb'
    rw [Builder.knows_of_prepares prepares]
    rcases List.mem_or_eq_of_mem_set hb' with hold | rfl
    · exact inv.knows b' hold
    · exact knows
  · obtain ⟨n', hcount, hsum⟩ := inv.builds
    have unfiled := sum_map_set (f := (·.phase.unfiled)) hb { b with phase := p }
    refine ⟨n' + n, ?_, ?_⟩
    · rw [builds, hcount, UInt64.ofNat_add, add_assoc]
    · dsimp only at unfiled ⊢
      rw [missing_of_prepares prepares]
      omega
  · obtain ⟨m', hcount, hsum⟩ := inv.reuses
    have answers := sum_map_set (f := (·.phase.answers)) hb { b with phase := p }
    refine ⟨m' + m, ?_, ?_⟩
    · rw [reuses, hcount, UInt64.ofNat_add, add_assoc]
    · dsimp only at answers ⊢
      rw [missing_of_prepares prepares]
      omega

theorem Invariant.turn (inv : Invariant h s l start r) (hb : r.builders[i]? = some b) {p : Phase}
    {holder : Option Nat} (others : ∀ j, j ≠ i → (holder = some j ↔ r.holder = some j))
    (own : holder = some i ↔ p.locked = true)
    (knows : Builder.Knows { b with phase := p } h s l r.caches)
    (unfiled : p.unfiled = b.phase.unfiled) (answers : p.answers = b.phase.answers) :
    Invariant h s l start ⟨r.caches, r.builders.set i { b with phase := p }, holder⟩ :=
  inv.move (n := 0) (m := 0) hb (.refl _) inv.stocked.sound others own knows (by simp) (by omega)
    (by simp) (by omega)

theorem Invariant.knows_file (inv : Invariant h s l start r) (ready : Ready h s l start)
    (holds : r.holder = some i) {b₀ : Builder} (hb₀ : b₀ ∈ start.builders)
    (hask : b₀.ask = b.ask) (hnone : b₀.found? h s l r.caches = none) {k : Shortcut}
    (version : k.version = (h.typeAt b₀.type).version) : ∀ b' ∈ r.builders.set i
      { b with phase := .leaving (.ok (.ok ⟨r.caches.shortcuts.size⟩)) },
      b'.Knows h s l (r.caches.file s l (b₀.key h) k).2 := by
  intro b' hb'
  obtain ⟨j, hj⟩ := List.mem_iff_getElem?.mp hb'
  rw [List.getElem?_set] at hj
  split at hj
  · split at hj
    · cases hj
      refine ⟨_, rfl, ?_⟩
      change b.found? h s l _ = _
      rw [← Builder.found?_of_ask hask, Builder.found?_file ready.distinct (inv.stocked.has ready)
        inv.stocked.exist (ready.has hb₀) (ready.has hb₀) version, if_pos rfl]
    · simp at hj
  · rename_i hij
    have hin : b' ∈ r.builders := List.mem_of_getElem? hj
    have unlocked : b'.phase.locked = false := by
      have lock := inv.lock j b' hj
      rw [holds, Option.some.injEq] at lock
      simpa [hij] using lock
    obtain ⟨b₁, hb₁, hask₁⟩ := inv.asked hin
    refine (inv.knows b' hin).mono unlocked fun k' hk' => ?_
    rw [← Builder.found?_of_ask hask₁] at hk' ⊢
    exact inv.stocked.stays ready hb₀ hnone version hb₁ hk'

theorem Invariant.file (inv : Invariant h s l start r) (ready : Ready h s l start)
    (hb : r.builders[i]? = some b) {k : Shortcut} (hphase : b.phase = .filing k) :
    Invariant h s l start
      ⟨(r.caches.file s l (b.key h) k).2,
        r.builders.set i { b with phase := .leaving (.ok (.ok ⟨r.caches.shortcuts.size⟩)) },
        r.holder⟩ := by
  have hin : b ∈ r.builders := List.mem_of_getElem? hb
  obtain ⟨b₀, hb₀, hask⟩ := inv.asked hin
  obtain ⟨hnone, version⟩ : b.found? h s l r.caches = none ∧
      k.version = (h.typeAt b.type).version := by
    have knows := inv.knows b hin
    unfold Builder.Knows at knows
    rwa [hphase] at knows
  rw [← Builder.found?_of_ask hask] at hnone
  rw [← (Prod.mk.inj hask).2] at version
  rw [← Builder.key_of_ask hask]
  have holds : r.holder = some i := (inv.lock i b hb).mpr (by rw [hphase]; rfl)
  have card := inv.stocked.missing_file ready hb₀ hnone version
  have works := file_works r.caches s l (b₀.key h) k
  let moved : Builder := { b with phase := .leaving (.ok (.ok ⟨r.caches.shortcuts.size⟩)) }
  refine ⟨inv.stocked.file ready hb₀ hnone version, (ask_set hb _).trans inv.same,
    inv.lock_set (fun _ _ => Iff.rfl) (by simp [holds, Phase.locked]),
    fun j hj => List.length_set.symm ▸ inv.holder j hj,
    inv.knows_file ready holds hb₀ hask hnone version, ?_, ?_⟩
  · obtain ⟨n, hcount, hsum⟩ := inv.builds
    have unfiled : _ + b.phase.unfiled = _ := sum_map_set (f := (·.phase.unfiled)) hb moved
    rw [hphase] at unfiled
    refine ⟨n, works.builds.trans hcount, ?_⟩
    simp only [Phase.unfiled, moved] at unfiled hsum ⊢
    omega
  · obtain ⟨n, hcount, hsum⟩ := inv.reuses
    have answers : _ + b.phase.answers = _ := sum_map_set (f := (·.phase.answers)) hb moved
    rw [hphase] at answers
    refine ⟨n, works.reuses.trans hcount, ?_⟩
    simp only [Phase.answers, moved] at answers hsum ⊢
    omega

theorem Invariant.look (inv : Invariant h s l start r) (ready : Ready h s l start)
    (hb : r.builders[i]? = some b) {found : Answer → Phase} {missing : Phase}
    (looks : b.phase = .asking ∧ found = .done ∧ missing = .waiting ∨
      b.phase = .checking ∧ found = .leaving ∧ missing = .building) :
    Invariant h s l start (r.look h s i b found missing) := by
  have hin : b ∈ r.builders := List.mem_of_getElem? hb
  have prepares := openShelf_prepares r.caches s l
  have sound := openShelf_sound inv.stocked.sound s l
  have works : Works s l r.caches _ := openShelf_works r.caches s l
  have has := works.has (inv.stocked.has ready)
  have lock := inv.lock i b hb
  have there : ∀ a, (found a).locked = b.phase.locked ∧ (found a).unfiled = b.phase.unfiled ∧
      (found a).answers = 1 + b.phase.answers := by
    rcases looks with ⟨hphase, rfl, rfl⟩ | ⟨hphase, rfl, rfl⟩ <;> rw [hphase] <;>
      exact fun _ => ⟨rfl, rfl, rfl⟩
  have absent : missing.locked = b.phase.locked ∧ missing.unfiled = b.phase.unfiled ∧
      missing.answers = b.phase.answers := by
    rcases looks with ⟨hphase, rfl, rfl⟩ | ⟨hphase, rfl, rfl⟩ <;> rw [hphase] <;>
      exact ⟨rfl, rfl, rfl⟩
  unfold Race.look
  rw [(inv.eligible ready hin).2]
  dsimp only
  cases hk : (r.caches.openShelf s l).current? s l (b.key h) (h.typeAt b.type).version with
  | some k =>
    replace hk : b.found? h s l r.caches = some k :=
      (Builder.found?_of_prepares prepares b).symm.trans hk
    obtain ⟨hlocked, hunfiled, hanswers⟩ := there (.ok (.ok k))
    have all := prepares.trans (count_prepares _ s .cacheReuses)
    have counters := counters_record (r.caches.openShelf s l) s s .cacheReuses
    rw [if_pos ⟨rfl, has⟩, Counters.record] at counters
    refine inv.move (n := 0) (m := 1) hb all (count_sound sound s _) (fun _ _ => Iff.rfl)
      (by rw [lock, hlocked]) ?_ ?_ (by omega) ?_ hanswers.symm
    · rcases looks with ⟨-, rfl, rfl⟩ | ⟨-, rfl, rfl⟩ <;> exact ⟨k, rfl, hk⟩
    · simpa [counters] using works.builds
    · simpa [counters] using works.reuses
  | none =>
    replace hk : b.found? h s l r.caches = none :=
      (Builder.found?_of_prepares prepares b).symm.trans hk
    obtain ⟨hlocked, hunfiled, hanswers⟩ := absent
    refine inv.move (n := 0) (m := 0) hb prepares sound (fun _ _ => Iff.rfl)
      (by rw [lock, hlocked]) ?_ (by simpa using works.builds) (by omega)
      (by simpa using works.reuses) (by omega)
    rcases looks with ⟨-, rfl, rfl⟩ | ⟨-, rfl, rfl⟩
    · trivial
    · exact hk

theorem Invariant.build (inv : Invariant h s l start r) (ready : Ready h s l start)
    (hb : r.builders[i]? = some b) (hphase : b.phase = .building) :
    ∃ k c, Caches.build h s b.shape b.type r.caches = .ok k c ∧
      Invariant h s l start (r.move i b c (.filing k)) := by
  have hin : b ∈ r.builders := List.mem_of_getElem? hb
  obtain ⟨⟨rec, hrec⟩, -⟩ := inv.eligible ready hin
  have hmake : h.construction? b.shape.signature b.type = .ok rec := by
    have hgate := (Heap.recipe_eq_ok_iff.mp hrec).1
    unfold Heap.recipe at hrec
    rwa [hgate] at hrec
  obtain ⟨k, c, hbuild, prepares, sound, version, builds, reuses⟩ :=
    build_of_recipe inv.stocked.sound ready.hierarchy ready.fits (inv.stocked.has ready) hmake
  refine ⟨k, c, hbuild, inv.move (n := 1) (m := 0) hb prepares sound (fun _ _ => Iff.rfl) ?_ ?_
    builds (by rw [hphase]; rfl) (by rw [reuses]; simp) (by rw [hphase]; rfl)⟩
  · rw [inv.lock i b hb, hphase]
    rfl
  · have knows := inv.knows b hin
    unfold Builder.Knows at knows
    rw [hphase] at knows
    exact ⟨knows, version⟩

theorem Invariant.advance (inv : Invariant h s l start r) (ready : Ready h s l start)
    (hb : r.builders[i]? = some b) : Invariant h s l start (r.advance h s i b) := by
  have hin : b ∈ r.builders := List.mem_of_getElem? hb
  obtain ⟨⟨rec, hrec⟩, hl⟩ := inv.eligible ready hin
  obtain ⟨hgate, -⟩ := Heap.recipe_eq_ok_iff.mp hrec
  have lock := inv.lock i b hb
  have knows := inv.knows b hin
  unfold Race.advance
  cases hphase : b.phase with
  | asking =>
    dsimp only
    rw [hgate]
    exact inv.look ready hb (Or.inl ⟨hphase, rfl, rfl⟩)
  | waiting =>
    cases hholder : r.holder with
    | some _ => exact inv
    | none =>
      refine inv.turn hb ?_ ?_ trivial (by rw [hphase]; rfl) (by rw [hphase]; rfl)
      · intro j hij
        simp [hholder, Ne.symm hij]
      · simp [Phase.locked]
  | checking => exact inv.look ready hb (Or.inr ⟨hphase, rfl, rfl⟩)
  | building =>
    obtain ⟨k, c, hbuild, inv'⟩ := inv.build ready hb hphase
    dsimp only
    rw [hbuild]
    exact inv'
  | filing k =>
    dsimp only
    rw [hl]
    exact inv.file ready hb hphase
  | leaving a =>
    have holds : r.holder = some i := lock.mpr (by rw [hphase]; rfl)
    unfold Builder.Knows at knows
    rw [hphase] at knows
    refine inv.turn hb ?_ ?_ knows (by rw [hphase]; rfl) (by rw [hphase]; rfl)
    · intro j hij
      simp [holds, Ne.symm hij]
    · simp [Phase.locked]
  | done _ => exact inv

theorem Invariant.step (inv : Invariant h s l start r) (ready : Ready h s l start) (i : Nat) :
    Invariant h s l start (r.step h s i) := by
  unfold Race.step
  cases hb : r.builders[i]? with
  | none => exact inv
  | some b => exact inv.advance ready hb

/-! ## Schedules -/

theorem run_append (r : Race) (xs ys : List Nat) :
    r.run h s (xs ++ ys) = (r.run h s xs).run h s ys := by
  unfold Race.run
  rw [List.foldl_append]

theorem Ready.run (ready : Ready h s l start) (schedule : List Nat) :
    Invariant h s l start (start.run h s schedule) := by
  induction schedule using List.reverseRecOn with
  | nil => exact ready.invariant
  | append_singleton schedule i ih =>
    rw [run_append]
    exact ih.step ready i

/-! ## Nobody waits forever -/

/-- Unless it waits for the lock, a builder comes closer to its answer. -/
theorem advance_remaining (busy : b.phase.answer? = none)
    (free : b.phase = .waiting → r.holder = none) :
    ∃ c p holder, r.advance h s i b = ⟨c, r.builders.set i { b with phase := p }, holder⟩ ∧
      p.remaining < b.phase.remaining := by
  unfold Race.advance
  cases hphase : b.phase with
  | asking =>
    dsimp only
    cases gate (r.caches.settings s) h b.shape b.type with
    | some reason => exact ⟨_, _, _, rfl, by simp [Phase.remaining]⟩
    | none =>
      unfold Race.look
      dsimp only
      split <;> exact ⟨_, _, _, rfl, by simp [Phase.remaining]⟩
  | waiting =>
    rw [free hphase]
    exact ⟨_, _, _, rfl, by simp [Phase.remaining]⟩
  | checking =>
    unfold Race.look
    dsimp only
    split <;> exact ⟨_, _, _, rfl, by simp [Phase.remaining]⟩
  | building =>
    dsimp only
    split <;> exact ⟨_, _, _, rfl, by simp [Phase.remaining]⟩
  | filing k => exact ⟨_, _, _, rfl, by simp [Phase.remaining]⟩
  | leaving a => exact ⟨_, _, _, rfl, by simp [Phase.remaining]⟩
  | done a => simp [hphase, Phase.answer?] at busy

theorem Invariant.progress (inv : Invariant h s l start r) (hb : b ∈ r.builders)
    (busy : b.phase.answer? = none) : ∃ i,
      ((r.step h s i).builders.map (·.phase.remaining)).sum <
        (r.builders.map (·.phase.remaining)).sum := by
  have next : ∃ (i : Nat) (b : Builder), r.builders[i]? = some b ∧ b.phase.answer? = none ∧
      (b.phase = .waiting → r.holder = none) := by
    cases hholder : r.holder with
    | none =>
      obtain ⟨i, hi⟩ := List.mem_iff_getElem?.mp hb
      exact ⟨i, b, hi, busy, fun _ => rfl⟩
    | some i =>
      -- The builder that has the lock.
      obtain ⟨b', hi⟩ : ∃ b', r.builders[i]? = some b' :=
        ⟨_, List.getElem?_eq_getElem (inv.holder i hholder)⟩
      obtain ⟨busy', able⟩ := Phase.busy_of_locked ((inv.lock i b' hi).mp hholder)
      exact ⟨i, b', hi, busy', fun hphase => absurd hphase able⟩
  obtain ⟨i, b', hi, busy', free⟩ := next
  obtain ⟨c, p, holder, heq, less⟩ := advance_remaining (h := h) (s := s) (i := i) busy' free
  have sum := sum_map_set (f := (·.phase.remaining)) hi { b' with phase := p }
  refine ⟨i, ?_⟩
  unfold Race.step
  rw [hi]
  dsimp only
  rw [heq]
  dsimp only at sum ⊢
  omega

/-- Whatever steps were taken, further ones bring all builders to their answers. -/
theorem Ready.finishes (ready : Ready h s l start) (schedule : List Nat) :
    ∃ more, ∀ b ∈ (start.run h s (schedule ++ more)).builders, b.phase.answer?.isSome := by
  generalize hn : ((start.run h s schedule).builders.map (·.phase.remaining)).sum = n
  induction n using Nat.strongRecOn generalizing schedule with
  | ind n ih =>
    by_cases done : ∀ b ∈ (start.run h s schedule).builders, b.phase.answer?.isSome
    · exact ⟨[], by simpa using done⟩
    · obtain ⟨b, hb, busy⟩ := not_forall₂.mp done
      obtain ⟨i, less⟩ := (ready.run schedule).progress hb (by simpa using busy)
      rw [hn] at less
      obtain ⟨more, hmore⟩ := ih _ less (schedule ++ [i]) (by rw [run_append]; rfl)
      exact ⟨i :: more, by simpa using hmore⟩

/-! ## Answers -/

theorem Invariant.answered (inv : Invariant h s l start r) (hb : b ∈ r.builders) {a : Answer}
    (ha : b.phase.answer? = some a) :
    ∃ k, a = .ok (.ok k) ∧ b.found? h s l r.caches = some k := by
  have knows := inv.knows b hb
  unfold Builder.Knows at knows
  cases hphase : b.phase with
  | done a' =>
    rw [hphase] at ha knows
    cases ha
    exact knows
  | asking | waiting | checking | building | filing | leaving => simp [hphase, Phase.answer?] at ha

theorem Invariant.answered_kept (inv : Invariant h s l start r) (hb : b ∈ r.builders) {a : Answer}
    (ha : b.phase.answer? = some a) {k : ShortcutRef} (hk : b.found? h s l start.caches = some k) :
    a = .ok (.ok k) := by
  obtain ⟨b₀, hb₀, hask⟩ := inv.asked hb
  obtain ⟨k', rfl, hk'⟩ := inv.answered hb ha
  rw [← Builder.found?_of_ask hask] at hk hk'
  rw [Option.some.inj (hk'.symm.trans (inv.stocked.kept b₀ hb₀ k hk))]

theorem Invariant.answers_agree (inv : Invariant h s l start r) (ready : Ready h s l start)
    (hb : b ∈ r.builders) (hb' : b' ∈ r.builders) (same : b.key h = b'.key h) {a a' : Answer}
    (ha : b.phase.answer? = some a) (ha' : b'.phase.answer? = some a') : a = a' := by
  obtain ⟨b₀, hb₀, hask⟩ := inv.asked hb
  obtain ⟨b₁, hb₁, hask'⟩ := inv.asked hb'
  obtain ⟨k, rfl, hk⟩ := inv.answered hb ha
  obtain ⟨k', rfl, hk'⟩ := inv.answered hb' ha'
  rw [← Builder.key_of_ask hask, ← Builder.key_of_ask hask'] at same
  have type := Builder.type_of_key ready.distinct (ready.has hb₀) (ready.has hb₁) same
  rw [← Builder.found?_of_ask hask] at hk
  rw [← Builder.found?_of_ask hask'] at hk'
  unfold Builder.found? at hk hk'
  rw [← same, ← type, hk] at hk'
  rw [Option.some.inj hk']

theorem Invariant.nothing_missing (inv : Invariant h s l start r)
    (done : ∀ b ∈ r.builders, b.phase.answer?.isSome) :
    r.caches.missing h s l start.builders = ∅ := by
  refine Finset.eq_empty_of_forall_notMem fun key hkey => ?_
  obtain ⟨b₀, hb₀, hnone, -⟩ := mem_missing.mp hkey
  have hin := List.mem_map_of_mem (f := Builder.ask) hb₀
  rw [← inv.same] at hin
  obtain ⟨b, hb, hask⟩ := List.mem_map.mp hin
  obtain ⟨a, ha⟩ := Option.isSome_iff_exists.mp (done b hb)
  obtain ⟨k, -, hk⟩ := inv.answered hb ha
  rw [Builder.found?_of_ask hask, hnone] at hk
  simp at hk

theorem Invariant.counted (inv : Invariant h s l start r)
    (done : ∀ b ∈ r.builders, b.phase.answer?.isSome) :
    (r.caches.counters s).siteBuilds = (start.caches.counters s).siteBuilds +
        UInt64.ofNat (start.caches.missing h s l start.builders).card ∧
      (r.caches.counters s).cacheReuses = (start.caches.counters s).cacheReuses +
        UInt64.ofNat (start.builders.length -
          (start.caches.missing h s l start.builders).card) := by
  have length : r.builders.length = start.builders.length := by
    simpa using congrArg List.length inv.same
  have unfiled : (r.builders.map (·.phase.unfiled)).sum = 0 := by
    rw [List.map_congr_left fun b hb => (Phase.counts_of_answer? (done b hb)).1]
    simp
  have answers : (r.builders.map (·.phase.answers)).sum = r.builders.length := by
    rw [List.map_congr_left fun b hb => (Phase.counts_of_answer? (done b hb)).2]
    simp
  have nothing := inv.nothing_missing done
  obtain ⟨n, hbuilds, hn⟩ := inv.builds
  obtain ⟨m, hreuses, hm⟩ := inv.reuses
  rw [nothing, Finset.card_empty] at hn hm
  obtain rfl : n = (start.caches.missing h s l start.builders).card := by omega
  obtain rfl : m = start.builders.length - (start.caches.missing h s l start.builders).card := by
    omega
  exact ⟨hbuilds, hreuses⟩

/-! ## Main theorem -/

theorem ready_of_arises {o : Usage} {H : History} (ha : History.Arises o H) (fits : H.heap.Fits)
    (room : H.heap.types.size + 255 ≤ 2 ^ 32) (has : H.caches.HasSpecializer s)
    {builders : List Builder} (asking : ∀ b ∈ builders, b.phase = .asking)
    (eligible : ∀ b ∈ builders, ∃ r, H.heap.recipe (H.caches.settings s) b.shape b.type = .ok r)
    (shelf : ∀ b ∈ builders, (H.heap.layoutOf b.type).id = l) :
    Ready H.heap s l { caches := H.caches, builders } where
  sound := ha.reachable.sane.sound
  hierarchy := ha.reachable.sane.hierarchy
  fits := fits
  distinct := ha.numbered.distinctIds room
  specializer := has
  exist := by
    intro key k hk
    obtain ⟨g, hg, rfl, -⟩ := ha.reachable.sane.filed s l key k hk
    exact ha.reachable.sane.shortcut g hg
  asking := asking
  free := rfl
  eligible := eligible
  shelf := shelf

/-- Builders ask for shortcuts of one shelf and take their steps in any order. Whoever is done has a
current shortcut, the one that was there at the start if there was one, and all that ask for the
same key get the same one. When all are done, one shortcut was built for each key that had none, and
every other request was a reuse. Nothing keeps them from getting there. -/
theorem one_build_per_key {o : Usage} {H : History} (ha : History.Arises o H) (fits : H.heap.Fits)
    (room : H.heap.types.size + 255 ≤ 2 ^ 32) (has : H.caches.HasSpecializer s)
    {builders : List Builder} (asking : ∀ b ∈ builders, b.phase = .asking)
    (eligible : ∀ b ∈ builders, ∃ r, H.heap.recipe (H.caches.settings s) b.shape b.type = .ok r)
    (shelf : ∀ b ∈ builders, (H.heap.layoutOf b.type).id = l) (schedule : List Nat) :
    let fresh := H.caches.missing H.heap s l builders
    let r := Race.run H.heap s { caches := H.caches, builders } schedule
    (r.builders.map Builder.ask = builders.map Builder.ask ∧
      ∀ b ∈ r.builders, ∀ a, b.phase.answer? = some a →
        (∃ k, a = .ok (.ok k) ∧ b.found? H.heap s l r.caches = some k) ∧
        (∀ k, b.found? H.heap s l H.caches = some k → a = .ok (.ok k)) ∧
        ∀ b' ∈ r.builders, b'.key H.heap = b.key H.heap →
          ∀ a', b'.phase.answer? = some a' → a' = a) ∧
    ((∀ b ∈ r.builders, b.phase.answer?.isSome) →
      ((∀ key ∈ fresh, ∃ k, r.caches.HasShortcut k ∧ ¬ H.caches.HasShortcut k ∧
          (r.caches.shelf s l).shortcuts.get? key = some k) ∧
        ∀ k, r.caches.HasShortcut k → ¬ H.caches.HasShortcut k →
          ∃! key, key ∈ fresh ∧ (r.caches.shelf s l).shortcuts.get? key = some k) ∧
      (r.caches.counters s).siteBuilds =
        (H.caches.counters s).siteBuilds + UInt64.ofNat fresh.card ∧
      (r.caches.counters s).cacheReuses =
        (H.caches.counters s).cacheReuses + UInt64.ofNat (builders.length - fresh.card)) ∧
    ∃ more, ∀ b ∈ (r.run H.heap s more).builders, b.phase.answer?.isSome := by
  intro fresh r
  have ready := ready_of_arises ha fits room has asking eligible shelf
  have inv : Invariant H.heap s l _ r := ready.run schedule
  obtain ⟨more, finished⟩ := ready.finishes schedule
  rw [run_append] at finished
  refine ⟨⟨inv.same, fun b hb a ha => ⟨inv.answered hb ha, ?_, ?_⟩⟩, fun done =>
    ⟨inv.stocked.complete (inv.nothing_missing done), inv.counted done⟩, more, finished⟩
  · exact fun k hk => inv.answered_kept hb ha hk
  · exact fun b' hb' same a' ha' => inv.answers_agree ready hb' hb same ha' ha

/-- Two builders ask for what nobody has asked for yet, and one for what is there. -/
def sampleBuilders : List Builder :=
  [{ shape := { signature := .plain 1 }, type := ⟨1⟩ },
    { shape := { signature := .plain 1 }, type := ⟨1⟩ },
    { shape := { signature := .plain 0 }, type := ⟨1⟩ }]

/-- The two look in vain before one of them builds. -/
def sampleRace : Race :=
  Race.run History.renewed.heap .shared
    { caches := History.renewed.caches, builders := sampleBuilders } (rounds 3 8)

theorem sampleRace_builds_one : (∀ b ∈ sampleRace.builders, b.phase.answer?.isSome) ∧
    (sampleRace.caches.counters .shared).siteBuilds =
      (History.renewed.caches.counters .shared).siteBuilds + 1 ∧
    (sampleRace.caches.counters .shared).cacheReuses =
      (History.renewed.caches.counters .shared).cacheReuses + 2 := by
  have asking : ∀ b ∈ sampleBuilders, b.phase = .asking := by simp [sampleBuilders]
  have eligible : ∀ b ∈ sampleBuilders, ∃ r, History.renewed.heap.recipe
      (History.renewed.caches.settings .shared) b.shape b.type = .ok r := by
    unfold sampleBuilders
    simp only [List.forall_mem_cons]
    refine ⟨⟨⟨.native ⟨0⟩, some ⟨0⟩⟩, by cbv⟩, ⟨⟨.native ⟨0⟩, some ⟨0⟩⟩, by cbv⟩,
      ⟨⟨.native ⟨0⟩, some ⟨0⟩⟩, by cbv⟩, by simp⟩
  have done : ∀ b ∈ sampleRace.builders, b.phase.answer?.isSome := by decide +kernel
  have one : (History.renewed.caches.missing History.renewed.heap .shared .object
    sampleBuilders).card = 1 := by decide +kernel
  obtain ⟨-, counts, -⟩ := one_build_per_key (l := .object) History.renewed_arises
    (by decide +kernel) (by decide +kernel) (s := .shared) (by decide +kernel) asking eligible
    (by decide +kernel) (rounds 3 8)
  obtain ⟨-, builds, reuses⟩ := counts done
  rw [one] at builds reuses
  exact ⟨done, builds, reuses⟩

end Race

end InlineCache
