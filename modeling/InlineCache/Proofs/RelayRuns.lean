import InlineCache.Proofs.Builds
import InlineCache.Proofs.Remembered
import InlineCache.Proofs.Story

/-! # No relay that lives is forgotten

A run goes from moment to moment. At each turn a relay is asked for, or something happens that
leaves the relays that a specializer remembers alone, whatever it does to what lives. -/

namespace InlineCache

/-! ## Turns -/

/-- The relays that a specializer remembers are left alone. -/
structure Idle (s : SpecializerRef) (S S' : Holding) : Prop where
  has : S.caches.HasSpecializer s → S'.caches.HasSpecializer s
  table : S'.table s = S.table s
  sweepAt : S'.caches.sweepAt s = S.caches.sweepAt s

namespace Idle

variable {s : SpecializerRef} {c c' : Caches}

theorem trans {S₁ S₂ S₃ : Holding} (a : Idle s S₁ S₂) (b : Idle s S₂ S₃) : Idle s S₁ S₃ :=
  ⟨fun has => b.has (a.has has), b.table.trans a.table, b.sweepAt.trans a.sweepAt⟩

theorem of_specializerAt (size : c.specializers.size ≤ c'.specializers.size)
    (relays : (c'.specializerAt s).relays = (c.specializerAt s).relays)
    (sweepAt : (c'.specializerAt s).sweepAt = (c.specializerAt s).sweepAt)
    (hands hands' : List RelayRef) : Idle s ⟨c, hands⟩ ⟨c', hands'⟩ :=
  ⟨fun has => has.trans_le size, relays, sweepAt⟩

theorem of_specializers (c c' : Caches) (same : c'.specializers = c.specializers)
    (hands hands' : List RelayRef) : Idle s ⟨c, hands⟩ ⟨c', hands'⟩ := by
  have hat := Caches.specializerAt_congr same s
  exact of_specializerAt (by rw [same]) (by rw [hat]) (by rw [hat]) hands hands'

theorem modifySpecializer {p : SpecializerRef} {g : Specializer → Specializer}
    (hg : ∀ q, (g q).relays = q.relays ∧ (g q).sweepAt = q.sweepAt) (hands hands' : List RelayRef) :
    Idle s ⟨c, hands⟩ ⟨c.modifySpecializer p g, hands'⟩ := by
  refine of_specializerAt Array.size_modify.ge ?_ ?_ hands hands'
  · rw [Caches.specializerAt_modifySpecializer]
    split
    · exact (hg _).1
    · rfl
  · rw [Caches.specializerAt_modifySpecializer]
    split
    · exact (hg _).2
    · rfl

theorem count (c : Caches) (p : SpecializerRef) (n : Counter) (hands hands' : List RelayRef) :
    Idle s ⟨c, hands⟩ ⟨c.count p n, hands'⟩ := by
  refine modifySpecializer ?_ hands hands'
  exact fun _ => ⟨rfl, rfl⟩

theorem openShelf (c : Caches) (p : SpecializerRef) (l : LayoutId) (hands hands' : List RelayRef) :
    Idle s ⟨c, hands⟩ ⟨c.openShelf p l, hands'⟩ := by
  refine modifySpecializer (fun q => ?_) hands hands'
  split <;> exact ⟨rfl, rfl⟩

theorem modifyShelf (c : Caches) (p : SpecializerRef) (l : LayoutId) (g : Shelf → Shelf)
    (hands hands' : List RelayRef) : Idle s ⟨c, hands⟩ ⟨c.modifyShelf p l g, hands'⟩ := by
  refine modifySpecializer ?_ hands hands'
  exact fun _ => ⟨rfl, rfl⟩

theorem allocatorFor (c : Caches) (h : Heap) (p : SpecializerRef) (l : LayoutRef)
    (hands hands' : List RelayRef) :
    Idle s ⟨c, hands⟩ ⟨(c.allocatorFor h p l).2, hands'⟩ := by
  unfold Caches.allocatorFor
  dsimp only
  split
  · exact of_specializers c c rfl hands hands'
  · have counted : Idle s ⟨c, hands⟩ ⟨if (Specializer.directAllocator h l).isSome then
        c.count p .allocatorBuilds else c, hands⟩ := by
      split
      · exact count c p _ hands hands
      · exact of_specializers c c rfl hands hands
    dsimp only
    exact counted.trans (modifyShelf _ p _ _ hands hands')

theorem file (c : Caches) (p : SpecializerRef) (l : LayoutId) (key : ShortcutKey) (k : Shortcut)
    (hands hands' : List RelayRef) : Idle s ⟨c, hands⟩ ⟨(c.file p l key k).2, hands'⟩ := by
  have added : Idle s ⟨c, hands⟩ ⟨(c.addShortcut k).2, hands⟩ :=
    of_specializers c (c.addShortcut k).2 rfl hands hands
  refine added.trans ?_
  unfold Caches.file
  dsimp only
  exact modifyShelf _ p l _ hands hands'

end Idle

/-- One turn: the relay for a function is asked for, or something else happens. -/
def Turn (s : SpecializerRef) : Option (FunctionRef × SiteShape) → Holding → Holding → Prop
  | some (f, shape), S, S' => S' = S.ask s f shape
  | none, S, S' => Idle s S S'

/-- A run from when a specializer is new, with what is asked for after each moment, if anything. -/
structure RelayRun (s : SpecializerRef) where
  moment : Nat → Holding
  asked : Nat → Option (FunctionRef × SiteShape)
  has : (moment 0).caches.HasSpecializer s
  empty : (moment 0).table s = ∅
  floor : (moment 0).caches.sweepAt s = sweepFloor
  turn : ∀ n, Turn s (asked n) (moment n) (moment (n + 1))

theorem Turn.has {s : SpecializerRef} {a : Option (FunctionRef × SiteShape)} {S S' : Holding}
    (turn : Turn s a S S') (has : S.caches.HasSpecializer s) : S'.caches.HasSpecializer s := by
  cases a with
  | none => exact Idle.has turn has
  | some a =>
    obtain ⟨f, shape⟩ := a
    subst turn
    exact (Caches.relayFor_working S.caches s f shape S.hands).has has

namespace RelayRun

variable {s : SpecializerRef} (R : RelayRun s)

def table (n : Nat) : Table RelayKey RelayRef := (R.moment n).table s

def Lives (n : Nat) (r : RelayRef) : Prop := (R.moment n).Lives r

/-- Whether there is a sweep right after a moment. -/
def sweeps (n : Nat) : Bool :=
  match R.asked n with
  | some (f, shape) => (R.moment n).sweeps s f shape
  | none => false

/-- How many relays the last sweep kept, or none if there was no sweep. -/
def lastKept : Nat → Nat
  | 0 => 0
  | n + 1 => if R.sweeps n then (R.table (n + 1)).size else lastKept n

/-- The relay was given for this key, and it has lived ever since. -/
def Alive (n : Nat) (key : RelayKey) (r : RelayRef) : Prop :=
  ∃ m < n, ∃ shape, R.asked m = some (key.callable, shape) ∧ shape.signature = key.signature ∧
    (R.moment m).answer s key.callable shape = r ∧ ∀ i, m < i → i ≤ n → R.Lives i r

theorem hasSpecializer (n : Nat) : (R.moment n).caches.HasSpecializer s := by
  induction n with
  | zero => exact R.has
  | succ n ih => exact (R.turn n).has ih

theorem moment_asked {n : Nat} {f : FunctionRef} {shape : SiteShape}
    (hasked : R.asked n = some (f, shape)) : R.moment (n + 1) = (R.moment n).ask s f shape := by
  have turn := R.turn n
  rwa [hasked] at turn

theorem idle_of_none {n : Nat} (hasked : R.asked n = none) :
    Idle s (R.moment n) (R.moment (n + 1)) := by
  have turn := R.turn n
  rwa [hasked] at turn

theorem get?_asked {n : Nat} {f : FunctionRef} {shape : SiteShape}
    (hasked : R.asked n = some (f, shape)) (key : RelayKey) (r : RelayRef) :
    (R.table (n + 1)).get? key = some r ↔
      (if ⟨f, shape.signature⟩ = key then (R.moment n).answer s f shape = r
        else (R.table n).get? key = some r) ∧
      (R.sweeps n = true → R.Lives (n + 1) r) := by
  unfold table Lives sweeps
  rw [R.moment_asked hasked, hasked]
  exact Holding.get?_ask (R.hasSpecializer n) f shape key r

theorem get?_succ {n : Nat} {key : RelayKey} {r : RelayRef}
    (found : (R.table n).get? key = some r) (lives : R.Lives n r) (lives' : R.Lives (n + 1) r) :
    (R.table (n + 1)).get? key = some r := by
  cases hasked : R.asked n with
  | none =>
    rw [table, (R.idle_of_none hasked).table]
    exact found
  | some a =>
    obtain ⟨f, shape⟩ := a
    refine (R.get?_asked hasked key r).mpr ⟨?_, fun _ => lives'⟩
    split
    · rename_i heq
      subst heq
      exact congrArg Prod.fst (Holding.relayFor_of_lives found lives rfl)
    · exact found

theorem get?_of_alive {n : Nat} {key : RelayKey} {r : RelayRef} (alive : R.Alive n key r) :
    (R.table n).get? key = some r := by
  obtain ⟨m, hlt, shape, hasked, hsignature, hanswer, lives⟩ := alive
  induction n, hlt using Nat.le_induction with
  | base =>
    rw [get?_asked R hasked, if_pos (by rw [hsignature])]
    exact ⟨hanswer, fun _ => lives (m + 1) (Nat.lt_succ_self m) le_rfl⟩
  | succ n hle ih =>
    have found := ih fun i hi hin => lives i hi (hin.trans n.le_succ)
    exact R.get?_succ found (lives n hle n.le_succ)
      (lives (n + 1) (Nat.lt_succ_of_lt hle) le_rfl)

/-- There are fewer relays than call for a sweep, and those are twice as many as were kept last. -/
theorem size_lt (n : Nat) : (R.moment n).caches.sweepAt s = max sweepFloor (2 * R.lastKept n) ∧
    (R.table n).size < (R.moment n).caches.sweepAt s := by
  induction n with
  | zero =>
    rw [table, R.floor, R.empty]
    exact ⟨rfl, by decide⟩
  | succ n ih =>
    obtain ⟨hsweepAt, few⟩ := ih
    unfold lastKept sweeps
    cases hasked : R.asked n with
    | none =>
      have idle := R.idle_of_none hasked
      rw [table, idle.table, idle.sweepAt]
      exact ⟨hsweepAt, few⟩
    | some a =>
      obtain ⟨f, shape⟩ := a
      have has := R.hasSpecializer n
      unfold table
      rw [R.moment_asked hasked]
      refine ⟨?_, Holding.size_ask has f shape few⟩
      rw [Holding.sweepAt_ask has]
      dsimp only
      split
      · rfl
      · exact hsweepAt

end RelayRun

/-! ## Requests for shortcuts -/

/-- A turn in which nothing dies. -/
def Gentle (s : SpecializerRef) (S S' : Holding) : Prop :=
  (∃ a, Turn s a S S') ∧ ∀ r, S.Lives r → S'.Lives r

abbrev Leads (s : SpecializerRef) : Holding → Holding → Prop := Relation.ReflTransGen (Gentle s)

namespace Caches

variable {c : Caches} {h : Heap} {s : SpecializerRef} {shape : SiteShape} {t : TypeRef}

theorem gentle_ask (S : Holding) (s : SpecializerRef) (f : FunctionRef) (shape : SiteShape) :
    Gentle s S (S.ask s f shape) :=
  ⟨⟨some (f, shape), rfl⟩, fun _ lives => Holding.lives_ask lives s f shape⟩

theorem initializerFor_leads (c : Caches) (h : Heap) (s : SpecializerRef) (shape : SiteShape)
    (t : TypeRef) :
    (∃ i c', initializerFor h s shape t c = .ok i c' ∧ Leads s ⟨c, []⟩ ⟨c', i.toList⟩) ∨
      ∃ o, initializerFor h s shape t c = .error o c := by
  rw [initializerFor_eq]
  split
  · exact Or.inr ⟨_, rfl⟩
  · exact Or.inl ⟨none, c, rfl, .refl⟩
  · exact Or.inl ⟨_, _, rfl, .single (gentle_ask ⟨c, []⟩ s _ shape.withReceiver)⟩

theorem allocationFor_leads (c : Caches) (h : Heap) (s : SpecializerRef) (shape : SiteShape)
    (t : TypeRef) (i : Option RelayRef) : ∃ hands,
      Leads s ⟨c, i.toList⟩ ⟨final (allocationFor h s shape t i c), hands⟩ := by
  rw [allocationFor_eq]
  split
  · have looks : Gentle s ⟨c, i.toList⟩ ⟨(c.allocatorFor h s (h.typeAt t).layout).2, i.toList⟩ :=
      ⟨⟨none, .allocatorFor c h s _ _ _⟩, fun r lives => lives.allocatorFor h s _⟩
    refine ⟨i.toList, .single ?_⟩
    split <;> rename_i heq <;> rwa [heq] at looks
  · exact ⟨_, .single (gentle_ask ⟨c, i.toList⟩ s _ shape.withReceiver)⟩
  · exact ⟨_, .refl⟩

theorem build_leads (c : Caches) (h : Heap) (s : SpecializerRef) (shape : SiteShape)
    (t : TypeRef) : ∃ hands, Leads s ⟨c, []⟩ ⟨final (build h s shape t c), hands⟩ := by
  rw [build_eq]
  split
  · exact ⟨_, .refl⟩
  · rcases initializerFor_leads c h s shape t with ⟨i, c₁, hi, first⟩ | ⟨o, hi⟩
    · obtain ⟨hands, second⟩ := allocationFor_leads c₁ h s shape t i
      have both := first.trans second
      simp only [hi]
      cases ha : allocationFor h s shape t i c₁ with
      | error o c₂ =>
        rw [ha] at both
        exact ⟨hands, both⟩
      | ok a c₂ =>
        rw [ha] at both
        exact ⟨hands, both.tail ⟨⟨none, .count c₂ s _ hands hands⟩, fun r lives => lives.count s _⟩⟩
    · simp only [hi]
      exact ⟨_, .refl⟩

/-- A request is made of turns, and nothing dies in any of them but the last. -/
theorem request_leads (c : Caches) (h : Heap) (s : SpecializerRef) (shape : SiteShape)
    (t : TypeRef) : ∃ S a, Leads s ⟨c, []⟩ S ∧
      Turn s a S ⟨final (request h s shape t c), []⟩ := by
  unfold request
  split
  · exact ⟨_, none, .refl, .count c s _ [] []⟩
  · have opened : Leads s ⟨c, []⟩ ⟨c.openShelf s (h.layoutOf t).id, []⟩ :=
      .single ⟨⟨none, .openShelf c s _ [] []⟩, fun r lives => lives.openShelf s _⟩
    dsimp only
    split
    · exact ⟨_, none, opened, .count _ s _ [] []⟩
    · obtain ⟨hands, built⟩ := build_leads (c.openShelf s (h.layoutOf t).id) h s shape t
      split <;> rename_i hb <;> rw [hb] at built
      · exact ⟨_, none, opened.trans built, .file _ s _ _ _ hands []⟩
      · exact ⟨_, none, opened.trans built, .count _ s _ hands []⟩
      · exact ⟨_, none, opened.trans built, .of_specializers _ _ rfl hands []⟩

end Caches

theorem History.Step.leads {o : Usage} {H K : History} (step : H.Step o K) {s : SpecializerRef}
    (has : H.caches.HasSpecializer s) :
    ∃ S a, Leads s ⟨H.caches, []⟩ S ∧ Turn s a S ⟨K.caches, []⟩ := by
  cases step with
  | request p shape t hasp =>
    rw [caches_afterRequest]
    by_cases heq : p = s
    · subst heq
      exact Caches.request_leads H.caches H.heap p shape t
    · obtain ⟨answer, c', n, hr, counts, -⟩ := Caches.request_counts hasp H.heap shape t
      have same := counts.other s (Ne.symm heq)
      rw [hr]
      refine ⟨_, none, .refl, .of_specializerAt counts.size.ge ?_ ?_ [] []⟩
      · exact congrArg Specializer.relays same
      · exact congrArg Specializer.sweepAt same
  | count p n => exact ⟨_, none, .refl, .count H.caches p n [] []⟩
  | addSpecializer settings valid =>
    have same : (H.caches.addSpecializer (.fresh settings valid)).2.specializerAt s =
        H.caches.specializerAt s := by
      rw [Caches.specializerAt_addSpecializer, if_neg (Nat.ne_of_lt has)]
    refine ⟨_, none, .refl, .of_specializerAt ?_ ?_ ?_ [] []⟩
    · exact (Array.size_push ..).symm ▸ Nat.le_succ _
    · exact congrArg Specializer.relays same
    · exact congrArg Specializer.sweepAt same
  | relaySite r =>
    refine ⟨_, none, .refl, .of_specializers _ _ ?_ [] []⟩
    change (H.caches.relaySite r).2.specializers = _
    rcases Caches.relaySite_eq H.caches r with heq | heq
    · rw [heq]
    · rw [heq]
      rfl
  | heap | trace | held | aim | plan | clear | addSite =>
    refine ⟨_, none, .refl, Idle.of_specializers _ _ ?_ [] []⟩
    rfl

/-! ## Main theorem -/

/-- In every run of a specializer, at most one relay that lives was given for a function and a
signature. Each is remembered, so it is given again, and nothing is counted. What is remembered
after a relay was asked for is that relay and what was remembered before, less, after a sweep, the
relays that do not live. There are always fewer than `sweepFloor`, or than twice as many as the last
sweep kept. Histories are made of the turns of such runs: nothing dies in them but at the last turn
of a step. -/
theorem relays_remembered (s : SpecializerRef) :
    (∀ R : RelayRun s,
      (∀ n key r r', R.Alive n key r → R.Alive n key r' → r = r') ∧
      (∀ n key r, R.Alive n key r → (R.table n).get? key = some r ∧
        ∀ shape, shape.signature = key.signature →
          (R.moment n).caches.relayFor s key.callable shape (R.moment n).hands =
            (r, (R.moment n).caches)) ∧
      (∀ n f shape, R.asked n = some (f, shape) → ∀ key r,
        (R.table (n + 1)).get? key = some r ↔
          (if ⟨f, shape.signature⟩ = key then (R.moment n).answer s f shape = r
            else (R.table n).get? key = some r) ∧
          (R.sweeps n = true → R.Lives (n + 1) r)) ∧
      ∀ n, (R.table n).size < max sweepFloor (2 * R.lastKept n)) ∧
    ∀ o H K, History.Step o H K → H.caches.HasSpecializer s →
      ∃ S a, Leads s ⟨H.caches, []⟩ S ∧ Turn s a S ⟨K.caches, []⟩ := by
  refine ⟨fun R => ⟨?_, ?_, ?_, ?_⟩, fun o H K step has => step.leads has⟩
  · intro n key r r' alive alive'
    have found := R.get?_of_alive alive
    rw [R.get?_of_alive alive'] at found
    exact (Option.some.inj found).symm
  · intro n key r alive
    have found := R.get?_of_alive alive
    obtain ⟨m, hlt, -, -, -, -, lives⟩ := alive
    exact ⟨found, fun shape => Holding.relayFor_of_lives found (lives n hlt le_rfl)⟩
  · exact fun n f shape => R.get?_asked
  · intro n
    obtain ⟨hsweepAt, few⟩ := R.size_lt n
    rwa [hsweepAt] at few

namespace RelayRun

/-- Relays are asked for, one function after the other. After 63 of them all but the first are let go
of, and the next one takes a sweep. -/
def crowded : Nat → Holding
  | 0 => ⟨.initial, []⟩
  | n + 1 =>
    if n = 63 then ⟨(crowded n).caches, [⟨0⟩]⟩
    else (crowded n).ask .shared ⟨n⟩ { signature := .plain 1 }

def crowd : RelayRun .shared where
  moment := crowded
  asked n := if n = 63 then none else some (⟨n⟩, { signature := .plain 1 })
  has := by decide
  empty := rfl
  floor := rfl
  turn n := by
    rw [crowded]
    split
    · exact ⟨id, rfl, rfl⟩
    · rfl

theorem mem_hands_crowded (n : Nat) : (⟨0⟩ : RelayRef) ∈ (crowded (n + 1)).hands := by
  induction n with
  | zero => exact List.mem_cons_self
  | succ n ih =>
    rw [crowded]
    split
    · exact List.mem_cons_self
    · exact List.mem_cons_of_mem _ ih

/-- The sweep forgets a relay that died, and the first is still given. -/
theorem crowd_remembered : crowd.sweeps 64 = true ∧
    (crowd.table 64).get? ⟨⟨1⟩, .plain 1⟩ = some ⟨1⟩ ∧
    (crowd.table 65).get? ⟨⟨1⟩, .plain 1⟩ = none ∧
    crowd.Alive 65 ⟨⟨0⟩, .plain 1⟩ ⟨0⟩ ∧
    (crowd.moment 65).caches.relayFor .shared ⟨0⟩ { signature := .plain 1 }
      (crowd.moment 65).hands = (⟨0⟩, (crowd.moment 65).caches) := by
  obtain ⟨remembered, -⟩ := relays_remembered .shared
  obtain ⟨-, again, exactly, -⟩ := remembered crowd
  have sweeps : crowd.sweeps 64 = true := by decide +kernel
  have old : (crowd.table 64).get? ⟨⟨1⟩, .plain 1⟩ = some ⟨1⟩ := by decide +kernel
  have dead : ¬ crowd.Lives 65 ⟨1⟩ := by
    unfold Lives Holding.Lives
    rw [← Caches.isLive_iff]
    decide +kernel
  have alive : crowd.Alive 65 ⟨⟨0⟩, .plain 1⟩ ⟨0⟩ := by
    refine ⟨0, by decide, _, rfl, rfl, rfl, fun i hi _ => ?_⟩
    obtain ⟨n, rfl⟩ := Nat.exists_eq_add_of_lt hi
    exact .hand (mem_hands_crowded _)
  refine ⟨sweeps, old, Option.eq_none_iff_forall_ne_some.mpr fun r found => ?_, alive,
    (again 65 _ _ alive).2 _ rfl⟩
  obtain ⟨before, kept⟩ := (exactly 64 _ _ rfl _ r).mp found
  rw [if_neg (by decide), old] at before
  exact dead (Option.some.inj before ▸ kept sweeps)

end RelayRun

end InlineCache
