import InlineCache.Caches.Request

/-! # Requests that race

Several builders ask one specializer for shortcuts of one shelf at once. A builder looks for a
current shortcut without the lock of the shelf. If there is none it takes the lock, looks again,
builds, files what it built and gives the lock back. Each of these is one step, and a schedule says
whose step comes next. Types do not change meanwhile.
-/

namespace InlineCache

abbrev Answer := Except BindError (Except Refusal ShortcutRef)

/-- Where a builder stands. -/
inductive Phase where
  /-- Before it looks without the lock. -/
  | asking
  /-- It needs the lock. -/
  | waiting
  /-- It has the lock and looks again. -/
  | checking
  /-- It has the lock and there is nothing to use again. -/
  | building
  /-- It has the lock and a new shortcut. -/
  | filing (k : Shortcut)
  /-- It has an answer and still the lock. -/
  | leaving (a : Answer)
  | done (a : Answer)

/-- The answer of a builder that is done. -/
def Phase.answer? : Phase → Option Answer
  | .done a => some a
  | _ => none

/-- Whoever asks for the shortcut for a type and a shape of call. -/
structure Builder where
  shape : SiteShape
  type : TypeRef
  phase : Phase := .asking

/-- What a builder looks for. -/
def Builder.key (b : Builder) (h : Heap) : ShortcutKey :=
  ⟨(h.typeAt b.type).id, b.shape.signature⟩

/-- Builders that share a specializer and the lock of a shelf. -/
structure Race where
  caches : Caches
  builders : List Builder
  /-- The builder that has the lock. -/
  holder : Option Nat := none

namespace Race

def move (r : Race) (i : Nat) (b : Builder) (c : Caches) (p : Phase) : Race :=
  { r with caches := c, builders := r.builders.set i { b with phase := p } }

/-- Looks for a current shortcut. The builder goes on to `found` with it, or to `missing` without
one. -/
def look (r : Race) (h : Heap) (s : SpecializerRef) (i : Nat) (b : Builder)
    (found : Answer → Phase) (missing : Phase) : Race :=
  let c := r.caches.openShelf s (h.layoutOf b.type).id
  match c.current? s (h.layoutOf b.type).id (b.key h) (h.typeAt b.type).version with
  | some k => r.move i b (c.count s .cacheReuses) (found (.ok (.ok k)))
  | none => r.move i b c missing

/-- What a builder does next. One that waits does nothing while another has the lock. -/
def advance (r : Race) (h : Heap) (s : SpecializerRef) (i : Nat) (b : Builder) : Race :=
  match b.phase with
  | .asking =>
    match gate (r.caches.settings s) h b.shape b.type with
    | some reason => r.move i b (r.caches.count s .ineligible) (.done (.ok (.error reason)))
    | none => r.look h s i b .done .waiting
  | .waiting =>
    match r.holder with
    | none => { r.move i b r.caches .checking with holder := some i }
    | some _ => r
  | .checking => r.look h s i b .leaving .building
  | .building =>
    match Caches.build h s b.shape b.type r.caches with
    | .ok k c => r.move i b c (.filing k)
    | .error (.refusal reason) c =>
      r.move i b (c.count s .ineligible) (.leaving (.ok (.error reason)))
    | .error (.error e) c => r.move i b c (.leaving (.error e))
  | .filing k =>
    let (ref, c) := r.caches.file s (h.layoutOf b.type).id (b.key h) k
    r.move i b c (.leaving (.ok (.ok ref)))
  | .leaving a => { r.move i b r.caches (.done a) with holder := none }
  | .done _ => r

def step (h : Heap) (s : SpecializerRef) (r : Race) (i : Nat) : Race :=
  match r.builders[i]? with
  | some b => r.advance h s i b
  | none => r

/-- The steps of a schedule. -/
def run (h : Heap) (s : SpecializerRef) (r : Race) (schedule : List Nat) : Race :=
  schedule.foldl (step h s) r

/-- So many rounds in which `n` builders take one step each. -/
def rounds (n count : Nat) : List Nat := (List.replicate count (List.range n)).flatten

def answers (r : Race) : List Answer := r.builders.filterMap fun b => b.phase.answer?

end Race

/-- The answers to `n` equal requests at once. The builders take turns until all are done: nobody
keeps the lock for more than five rounds. -/
def Caches.race (c : Caches) (h : Heap) (s : SpecializerRef) (shape : SiteShape) (t : TypeRef)
    (n : Nat) : List Answer × Caches :=
  let start : Race := { caches := c, builders := List.replicate n { shape, type := t } }
  let r := start.run h s (Race.rounds n (5 * n + 2))
  (r.answers, r.caches)

end InlineCache
