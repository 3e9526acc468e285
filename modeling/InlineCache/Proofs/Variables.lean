import InlineCache.Settings
import Mathlib.Data.List.Induction
import Mathlib.Data.List.TakeWhile

/-! # What settings can be written as

A variable that is not set leaves its default. A switch is one of nine words in small letters or
capitals, a count is a decimal numeral with or without a plus; both may have blanks around them.
Settings are read exactly from what is written so, with a count of at most five. -/

namespace InlineCache

namespace Text

variable {cs core front back : List Char}

/-! ## Blanks around a text -/

/-- What is left of a text without the blanks at both ends. -/
structure Trims (cs core : List Char) : Prop where
  between : ∃ front back, cs = front ++ core ++ back ∧
    (∀ c ∈ front, isBlank c) ∧ ∀ c ∈ back, isBlank c
  starts : ∀ c ∈ core.head?, isBlank c = false
  ends : ∀ c ∈ core.getLast?, isBlank c = false

theorem starts_trimStart (cs : List Char) : ∀ c ∈ (trimStart cs).head?, isBlank c = false := by
  intro c hc
  have first := List.head?_dropWhile_not isBlank cs
  rw [← trimStart, Option.mem_def.mp hc] at first
  exact first

theorem exists_trimStart (cs : List Char) :
    ∃ front, cs = front ++ trimStart cs ∧ ∀ c ∈ front, isBlank c :=
  ⟨cs.takeWhile isBlank, List.takeWhile_append_dropWhile.symm, fun _ => List.mem_takeWhile_imp⟩

theorem trimStart_append (blank : ∀ c ∈ front, isBlank c)
    (starts : ∀ c ∈ cs.head?, isBlank c = false) : trimStart (front ++ cs) = cs := by
  rw [trimStart, List.dropWhile_append_of_pos blank]
  cases cs with
  | nil => rfl
  | cons c cs => exact List.dropWhile_cons_of_neg (by simp [starts c rfl])

theorem trimEnd_eq (cs : List Char) : trimEnd cs = (trimStart cs.reverse).reverse := rfl

theorem ends_trimEnd (cs : List Char) : ∀ c ∈ (trimEnd cs).getLast?, isBlank c = false := by
  rw [trimEnd_eq, List.getLast?_reverse]
  exact starts_trimStart cs.reverse

theorem exists_trimEnd (cs : List Char) :
    ∃ back, cs = trimEnd cs ++ back ∧ ∀ c ∈ back, isBlank c := by
  obtain ⟨front, heq, blank⟩ := exists_trimStart cs.reverse
  refine ⟨front.reverse, ?_, fun c hc => blank c (List.mem_reverse.mp hc)⟩
  rw [trimEnd_eq, ← List.reverse_append, ← heq, List.reverse_reverse]

theorem trimEnd_append (blank : ∀ c ∈ back, isBlank c)
    (ends : ∀ c ∈ cs.getLast?, isBlank c = false) : trimEnd (cs ++ back) = cs := by
  rw [trimEnd_eq, List.reverse_append, trimStart_append, List.reverse_reverse]
  · exact fun c hc => blank c (List.mem_reverse.mp hc)
  · rwa [List.head?_reverse]

theorem trims_trim (cs : List Char) : Trims cs (trim cs) := by
  obtain ⟨front, hcs, hfront⟩ := exists_trimStart cs
  obtain ⟨back, hrest, hback⟩ := exists_trimEnd (trimStart cs)
  refine ⟨⟨front, back, ?_, hfront, hback⟩, fun c hc => starts_trimStart cs c ?_,
    ends_trimEnd (trimStart cs)⟩
  · rw [List.append_assoc, trim, ← hrest, ← hcs]
  · rw [hrest, List.head?_append, ← trim, Option.mem_def.mp hc]
    rfl

theorem Trims.trim_eq (trims : Trims cs core) : trim cs = core := by
  obtain ⟨⟨front, back, rfl, hfront, hback⟩, starts, ends⟩ := trims
  rw [trim, List.append_assoc]
  cases core with
  | nil =>
    have blank : ∀ c ∈ front ++ back, isBlank c := List.forall_mem_append.mpr ⟨hfront, hback⟩
    have nothing : trimStart (front ++ back) = [] := by
      rw [← List.append_nil (front ++ back)]
      exact trimStart_append blank nofun
    rw [List.nil_append, nothing]
    rfl
  | cons c core =>
    have rest : trimStart (front ++ (c :: core ++ back)) = c :: core ++ back :=
      trimStart_append hfront starts
    rw [rest, trimEnd_append hback ends]

theorem trim_eq_iff : trim cs = core ↔ Trims cs core :=
  ⟨fun h => h ▸ trims_trim cs, Trims.trim_eq⟩

end Text

namespace Settings

open Text

variable {cs : List Char} {c : Char} {text : String} {n : Nat}

/-! ## Numerals -/

/-- Decimal digits, one at least, and the number they denote. -/
inductive Numeral : List Char → Nat → Prop
  | digit {d : Nat} (lt : d < 10) : Numeral [Nat.digitChar d] d
  | snoc {cs : List Char} {n d : Nat} (numeral : Numeral cs n) (lt : d < 10) :
      Numeral (cs ++ [Nat.digitChar d]) (10 * n + d)

theorem isDigit_iff : isDigit c = true ↔ ∃ d < 10, c = Nat.digitChar d := by
  have standard : isDigit c = c.isDigit := rfl
  rw [standard]
  constructor
  · intro digit
    obtain ⟨low, high⟩ := Char.isDigit_iff_toNat.mp digit
    have lt : c.toNat - 48 < 10 := by
      change c.toNat ≤ 57 at high
      omega
    refine ⟨c.toNat - 48, lt, Char.toNat_inj.mp ?_⟩
    rw [Nat.toNat_digitChar_of_lt_ten lt]
    exact (Nat.add_sub_cancel' low).symm
  · rintro ⟨d, lt, rfl⟩
    rw [Nat.isDigit_digitChar, decide_eq_true lt]

theorem denoted_concat (cs : List Char) {d : Nat} (lt : d < 10) :
    denoted (cs ++ [Nat.digitChar d]) = 10 * denoted cs + d := by
  rw [denoted, List.foldl_append, List.foldl_cons, List.foldl_nil,
    Nat.toNat_digitChar_of_lt_ten lt, Nat.add_sub_cancel_left, denoted]

theorem denoted_digit {d : Nat} (lt : d < 10) : denoted [Nat.digitChar d] = d := by
  rw [← List.nil_append [_], denoted_concat [] lt]
  exact Nat.zero_add d

theorem numeral_iff : Numeral cs n ↔ cs ≠ [] ∧ cs.all isDigit = true ∧ denoted cs = n := by
  constructor
  · intro numeral
    induction numeral with
    | @digit d lt =>
      have last : isDigit (Nat.digitChar d) = true := isDigit_iff.mpr ⟨d, lt, rfl⟩
      exact ⟨by simp, by simp [last], denoted_digit lt⟩
    | @snoc cs n d _ lt ih =>
      obtain ⟨-, digits, rfl⟩ := ih
      have last : isDigit (Nat.digitChar d) = true := isDigit_iff.mpr ⟨d, lt, rfl⟩
      refine ⟨by simp, ?_, denoted_concat cs lt⟩
      rw [List.all_append, digits]
      simp [last]
  · rintro ⟨hne, digits, rfl⟩
    -- A numeral grows at its end, and so does what the fold of `denoted` has read.
    induction cs using List.reverseRecOn with
    | nil => exact absurd rfl hne
    | append_singleton cs c ih =>
      rw [List.all_append, Bool.and_eq_true] at digits
      obtain ⟨d, lt, rfl⟩ := isDigit_iff.mp (List.all_eq_true.mp digits.2 c List.mem_cons_self)
      by_cases first : cs = []
      · rw [first, List.nil_append, denoted_digit lt]
        exact .digit lt
      · rw [denoted_concat cs lt]
        exact .snoc (ih first digits.1) lt

/-! ## Switches and counts -/

theorem lower_eq (cs : List Char) : lower cs = cs.map Char.toLower := by
  refine List.map_congr_left fun c _ => ?_
  have capital : ('A' ≤ c && c ≤ 'Z') = true ↔ c.val ≥ 'A'.val ∧ c.val ≤ 'Z'.val := by
    rw [Bool.and_eq_true, decide_eq_true_eq, decide_eq_true_eq]
    rfl
  -- The one makes the small letter from a number, the other from a word that does not overflow.
  unfold Char.toLower
  split
  · rename_i range
    rw [dif_pos (capital.mp range)]
    have range : 65 ≤ c.toNat ∧ c.toNat ≤ 90 := capital.mp range
    have small : (c.val + 32).toNat = c.toNat + 32 := by
      rw [UInt32.toNat_add]
      change (c.toNat + 32) % 2 ^ 32 = c.toNat + 32
      omega
    have ofNat_eq : ∀ d : Char, d.toNat = c.toNat + 32 → Char.ofNat (c.toNat + 32) = d :=
      fun d hd => hd ▸ Char.ofNat_toNat d
    exact ofNat_eq _ small
  · rename_i other
    rw [dif_neg (mt capital.mpr other)]

/-- The words that a switch is written with, in small letters. -/
def switchWords : Bool → List String
  | true => ["", "1", "on", "true", "yes"]
  | false => ["0", "off", "false", "no"]

/-- The text is a word for a switch, in letters of either case, between blanks. -/
def WritesSwitch (text : String) (b : Bool) : Prop :=
  ∃ cs, Trims text.toList cs ∧ String.ofList (cs.map Char.toLower) ∈ switchWords b

/-- The text is a numeral, with a plus in front or without, between blanks. -/
inductive WritesCount (text : String) (n : Nat) : Prop
  | unsigned {cs : List Char} (trims : Trims text.toList cs) (numeral : Numeral cs n)
  | signed {cs : List Char} (trims : Trims text.toList ('+' :: cs)) (numeral : Numeral cs n)

theorem readSwitch_eq_some_iff (text : String) (b : Bool) :
    readSwitch text = some b ↔ WritesSwitch text b := by
  have written : WritesSwitch text b ↔
      String.ofList (lower (trim text.toList)) ∈ switchWords b := by
    simp [WritesSwitch, ← trim_eq_iff, lower_eq]
  have disjoint : ∀ word ∈ switchWords false, word ∉ switchWords true := by decide
  rw [written]
  unfold readSwitch
  generalize String.ofList (lower (trim text.toList)) = word
  change (if word ∈ switchWords true then some true else
    if word ∈ switchWords false then some false else none) = some b ↔ _
  cases b with
  | true => simp
  | false =>
    by_cases on : word ∈ switchWords true
    · simpa [on] using fun off => disjoint word off on
    · simp [on]

theorem not_numeral_plus (cs : List Char) : ¬ Numeral ('+' :: cs) n := by
  rw [numeral_iff]
  rintro ⟨-, digits, -⟩
  cases digits

theorem writesCount_iff : WritesCount text n ↔ Numeral (trim text.toList) n ∨
    ∃ rest, trim text.toList = '+' :: rest ∧ Numeral rest n := by
  simp only [trim_eq_iff]
  constructor
  · rintro (⟨trims, numeral⟩ | ⟨trims, numeral⟩)
    · exact Or.inl (trims.trim_eq ▸ numeral)
    · exact Or.inr ⟨_, trims, numeral⟩
  · rintro (numeral | ⟨rest, trims, numeral⟩)
    · exact .unsigned (trims_trim _) numeral
    · exact .signed trims numeral

/-- A count is read if it fits into a word. -/
def ReadsCount (text : String) (n : Nat) : Prop := WritesCount text n ∧ n < UInt64.size

theorem readCount_eq_some_iff (text : String) (n : Nat) :
    readCount text = some n ↔ ReadsCount text n := by
  have digits : ∀ cs : List Char, (if cs ≠ [] ∧ cs.all isDigit ∧ denoted cs < UInt64.size
      then some (denoted cs) else none) = some n ↔ Numeral cs n ∧ n < UInt64.size := by
    intro cs
    rw [numeral_iff, Option.ite_none_right_eq_some, Option.some.injEq]
    constructor
    · rintro ⟨⟨hne, digits, word⟩, rfl⟩
      exact ⟨⟨hne, digits, rfl⟩, word⟩
    · rintro ⟨⟨hne, digits, rfl⟩, word⟩
      exact ⟨⟨hne, digits, word⟩, rfl⟩
  rw [ReadsCount, writesCount_iff]
  unfold readCount
  dsimp only
  rw [digits]
  refine and_congr_left fun _ => ?_
  split
  · rename_i rest plus
    rw [plus]
    simp [not_numeral_plus]
  · rename_i unsigned
    refine ⟨Or.inl, ?_⟩
    rintro (numeral | ⟨rest, plus, -⟩)
    · exact numeral
    · exact absurd plus (unsigned rest)

/-! ## Variables -/

variable {α : Type} {writes : String → α → Prop} {default a : α} {read : String → Option α}
  {fault : String → SettingsFault} {v : Option String} {e : SettingsFault}

/-- What a variable gives: its default if it is not set, else what its text is written for. -/
def Gives (writes : String → α → Prop) (default : α) : Option String → α → Prop
  | none, a => a = default
  | some text, a => writes text a

/-- Reads a variable that has a default. -/
def readVariable (read : String → Option α) (fault : String → SettingsFault) (default : α) :
    Option String → Except SettingsFault α
  | none => .ok default
  | some text => match read text with
    | some a => .ok a
    | none => .error (fault text)

theorem readVariable_eq_ok_iff (reads : ∀ text a, read text = some a ↔ writes text a)
    (v : Option String) : readVariable read fault default v = .ok a ↔ Gives writes default v a := by
  cases v with
  | none => simp [readVariable, Gives, eq_comm]
  | some text =>
    rw [Gives, ← reads, readVariable]
    cases read text <;> simp

theorem readVariable_eq_error_iff (reads : ∀ text a, read text = some a ↔ writes text a) :
    readVariable read fault default v = .error e ↔
      ∃ text, v = some text ∧ (∀ a, ¬ writes text a) ∧ fault text = e := by
  cases v with
  | none => simp [readVariable]
  | some text =>
    simp only [← reads, readVariable, Option.some.injEq, exists_eq_left']
    cases read text <;> simp

theorem fromVariables_eq (lookup : String → Option String) : fromVariables lookup =
    (readVariable readSwitch (.notBoolean enabledVariable) true (lookup enabledVariable)).bind
      fun enabled => (readVariable readCount (.notNumber maxArityVariable) arityLimit
        (lookup maxArityVariable)).bind fun maxArity => validate { enabled, maxArity } := by
  unfold fromVariables readVariable
  rcases lookup enabledVariable with _ | switch <;> rcases lookup maxArityVariable with _ | count
  · rfl
  · dsimp only
    cases readCount count <;> rfl
  · dsimp only
    cases readSwitch switch <;> rfl
  · dsimp only
    cases readSwitch switch <;> cases readCount count <;> rfl

theorem bind_eq_ok_iff {β : Type} {x : Except SettingsFault α} {f : α → Except SettingsFault β}
    {b : β} : x.bind f = .ok b ↔ ∃ a, x = .ok a ∧ f a = .ok b := by
  cases x <;> simp [Except.bind]

theorem bind_eq_error_iff {β : Type} {x : Except SettingsFault α}
    {f : α → Except SettingsFault β} :
    x.bind f = .error e ↔ x = .error e ∨ ∃ a, x = .ok a ∧ f a = .error e := by
  cases x <;> simp [Except.bind]

theorem validate_eq_ok_iff {s s' : Settings} : s.validate = .ok s' ↔ s = s' ∧ s.Valid := by
  unfold validate
  split <;> simp_all

theorem validate_eq_error_iff {s : Settings} :
    s.validate = .error e ↔ ¬ s.Valid ∧ .capTooLarge s.maxArity = e := by
  unfold validate
  split <;> simp_all

theorem gives_readsCount :
    Gives ReadsCount arityLimit v n ↔ Gives WritesCount arityLimit v n ∧ n < UInt64.size := by
  cases v with
  | none =>
    simp only [Gives, iff_self_and]
    rintro rfl
    decide
  | some text => rfl

/-- The fault of variables that give no settings: a bad switch comes before a bad count, and that
before a count above the limit. -/
inductive Refuses (lookup : String → Option String) : SettingsFault → Prop
  | notBoolean {text : String} (set : lookup "EMBER_FASTBIND" = some text)
      (bad : ∀ b, ¬ WritesSwitch text b) : Refuses lookup (.notBoolean "EMBER_FASTBIND" text)
  | notNumber {b : Bool} {text : String}
      (switch : Gives WritesSwitch true (lookup "EMBER_FASTBIND") b)
      (set : lookup "EMBER_FASTBIND_MAX_ARITY" = some text)
      (bad : ∀ n, WritesCount text n → UInt64.size ≤ n) :
      Refuses lookup (.notNumber "EMBER_FASTBIND_MAX_ARITY" text)
  | capTooLarge {b : Bool} {n : Nat}
      (switch : Gives WritesSwitch true (lookup "EMBER_FASTBIND") b)
      (count : Gives WritesCount 5 (lookup "EMBER_FASTBIND_MAX_ARITY") n)
      (above : 5 < n) (word : n < UInt64.size) : Refuses lookup (.capTooLarge n)

section

variable {lookup : String → Option String} {s : Settings}

theorem fromVariables_eq_ok_iff : fromVariables lookup = .ok s ↔
    Gives WritesSwitch true (lookup enabledVariable) s.enabled ∧
      Gives ReadsCount arityLimit (lookup maxArityVariable) s.maxArity ∧ s.Valid := by
  simp only [fromVariables_eq, bind_eq_ok_iff, validate_eq_ok_iff,
    readVariable_eq_ok_iff readSwitch_eq_some_iff, readVariable_eq_ok_iff readCount_eq_some_iff]
  constructor
  · rintro ⟨b, switch, n, count, rfl, valid⟩
    exact ⟨switch, count, valid⟩
  · rintro ⟨switch, count, valid⟩
    exact ⟨_, switch, _, count, rfl, valid⟩

theorem fromVariables_eq_error_iff : fromVariables lookup = .error e ↔ Refuses lookup e := by
  simp only [fromVariables_eq, bind_eq_error_iff, validate_eq_error_iff,
    readVariable_eq_ok_iff readSwitch_eq_some_iff, readVariable_eq_ok_iff readCount_eq_some_iff,
    readVariable_eq_error_iff readSwitch_eq_some_iff,
    readVariable_eq_error_iff readCount_eq_some_iff]
  constructor
  · rintro (⟨text, set, bad, rfl⟩ | ⟨b, switch, ⟨text, set, bad, rfl⟩ | ⟨n, count, above, rfl⟩⟩)
    -- One case for each place where reading can stop; the earlier places were passed.
    · exact .notBoolean set bad
    · exact .notNumber switch set fun n written => not_lt.mp fun word => bad n ⟨written, word⟩
    · obtain ⟨count, word⟩ := gives_readsCount.mp count
      exact .capTooLarge switch count (not_le.mp above) word
  · rintro (⟨set, bad⟩ | ⟨switch, set, bad⟩ | ⟨switch, count, above, word⟩)
    · exact Or.inl ⟨_, set, bad, rfl⟩
    · exact Or.inr ⟨_, switch, Or.inl ⟨_, set, fun n read => (bad n read.1).not_gt read.2, rfl⟩⟩
    · have count := gives_readsCount.mpr ⟨count, word⟩
      exact Or.inr ⟨_, switch, Or.inr ⟨_, count, not_le.mpr above, rfl⟩⟩

/-- Settings are read exactly from what they can be written as, with a count of at most five, and
they are valid. Every other text is refused, and the first thing wrong with it is named. -/
theorem fromVariables_exact (lookup : String → Option String) :
    (∀ s, fromVariables lookup = .ok s ↔
      Gives WritesSwitch true (lookup "EMBER_FASTBIND") s.enabled ∧
        Gives WritesCount 5 (lookup "EMBER_FASTBIND_MAX_ARITY") s.maxArity ∧ s.maxArity ≤ 5) ∧
    (∀ s, fromVariables lookup = .ok s → s.validate = .ok s) ∧
    ∀ fault, fromVariables lookup = .error fault ↔ Refuses lookup fault := by
  refine ⟨fun s => ?_, fun s read => ?_, fun fault => fromVariables_eq_error_iff⟩
  · rw [fromVariables_eq_ok_iff, gives_readsCount]
    constructor
    · rintro ⟨switch, ⟨count, -⟩, valid⟩
      exact ⟨switch, count, valid⟩
    · rintro ⟨switch, count, valid⟩
      exact ⟨switch, ⟨count, valid.trans_lt (by decide)⟩, valid⟩
  · exact validate_eq_ok_iff.mpr ⟨rfl, (fromVariables_eq_ok_iff.mp read).2.2⟩

end

/-- Variables with blanks, capitals, a plus and zeros in their texts. -/
def spelledOut (key : String) : Option String :=
  if key = "EMBER_FASTBIND" then some " OFF\n" else some "\t+0003 "

theorem spelledOut_exact :
    fromVariables spelledOut = .ok { enabled := false, maxArity := 3 } ∧
      validate { enabled := false, maxArity := 3 } = .ok { enabled := false, maxArity := 3 } ∧
      WritesSwitch " OFF\n" false ∧ WritesCount "\t+0003 " 3 := by
  obtain ⟨reads, valid, -⟩ := fromVariables_exact spelledOut
  have read : fromVariables spelledOut = .ok { enabled := false, maxArity := 3 } := rfl
  obtain ⟨switch, count, -⟩ := (reads _).mp read
  exact ⟨read, valid _ read, switch, count⟩

/-- A numeral that does not fit into a word counts as no number. -/
example : fromVariables
    (fun key => if key = "EMBER_FASTBIND" then none else some "18446744073709551616") =
      .error (.notNumber "EMBER_FASTBIND_MAX_ARITY" "18446744073709551616") := rfl

end Settings

end InlineCache
