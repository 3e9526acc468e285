import InlineCache.Caches.Basic
import InlineCache.Decimal.Shortest
import InlineCache.Slot
import InlineCache.Text.Quoted

/-! # Inspection texts

How values, types and cached things are shown to whoever looks into a running system.
-/

namespace InlineCache.Inspect

/-! ## Shapes of texts -/

/-- Parts between brackets. -/
def list (parts : List String) : String := "[" ++ ", ".intercalate parts ++ "]"

/-- Something with one part. -/
def wrapped (name part : String) : String := name ++ "(" ++ part ++ ")"

/-- Something with named parts. -/
def record (name : String) (fields : List (String × String)) : String :=
  name ++ " \x7b " ++ ", ".intercalate (fields.map fun f => f.1 ++ ": " ++ f.2) ++ " \x7d"

/-- Something with named parts, of which not all are shown. -/
def partialRecord (name : String) (fields : List (String × String)) : String :=
  name ++ " \x7b " ++ String.join (fields.map fun f => f.1 ++ ": " ++ f.2 ++ ", ") ++ ".. \x7d"

/-- Something that may be missing. -/
def optional (part : Option String) : String :=
  match part with
  | none => "None"
  | some text => wrapped "Some" text

def flag (b : Bool) : String := if b then "true" else "false"

/-! ## Objects -/

mutual

def value (h : Heap) : Value → String
  | .none => "None"
  | .bool b => if b then "True" else "False"
  | .int i => toString i.toInt
  | .float x => Decimal.text x
  | .str s => Text.quote s
  | .tuple _ items => "(" ++ list (values h items) ++ ",)"
  | .type t => s!"<class '{(h.typeAt t).name}'>"
  | .function f => s!"<function {(h.functionAt f).name}>"
  | .staticMethod _ _ => "<staticmethod>"
  | .classMethod _ _ => "<classmethod>"
  | .builtin b => s!"<built-in function {h.builtinName b}>"
  | .object i => s!"<{(h.typeAt (h.objectAt i).type).name} object>"

def values (h : Heap) : List Value → List String
  | [] => []
  | v :: rest => value h v :: values h rest

end

/-- A method wrapper with what it wraps; any other value as it is. -/
def method (h : Heap) : Value → String
  | .staticMethod _ inner => record "StaticMethod" [("func", value h inner)]
  | .classMethod _ inner => record "ClassMethod" [("func", value h inner)]
  | v => value h v

def layoutId (l : LayoutId) : String := wrapped "LayoutId" (toString l.raw.toNat)

def flags (f : TypeFlags) : String :=
  let set :=
    [(f.system, "SYSTEM"), (f.classic, "CLASSIC"), (f.mixed, "MIXED_LEGACY")].filter Prod.fst
  wrapped "TypeFlags" (if set.isEmpty then "0x0" else " | ".intercalate (set.map Prod.snd))

def type (h : Heap) (t : TypeRef) : String :=
  let r := h.typeAt t
  partialRecord "TypeObject"
    [("name", Text.quote r.name), ("type_id", wrapped "TypeId" (toString r.id.raw.toNat)),
      ("layout", layoutId (h.layoutOf t).id), ("flags", flags r.flags),
      ("version", toString r.version.toNat)]

def function (h : Heap) (f : FunctionRef) : String :=
  let r := h.functionAt f
  partialRecord "FunctionObject"
    [("name", Text.quote r.name), ("params", list (r.params.map Text.quote)),
      ("varargs", flag r.variadic)]

def object (h : Heap) (i : InstanceRef) : String :=
  let o := h.objectAt i
  partialRecord "Instance"
    [("class", Text.quote (h.typeAt o.type).name), ("layout", layoutId o.layout)]

def param : NativeParam → String
  | .type => "Type"
  | .int => "Int"
  | .str => "Str"
  | .any => "Object"

def ctor (c : NativeCtor) : String :=
  partialRecord "NativeCtor" [("params", list (c.params.map param))]

def layout (l : Layout) : String :=
  record "NativeLayout"
    [("id", layoutId l.id), ("name", Text.quote l.name), ("ctors", list (l.ctors.map ctor))]

def slot (h : Heap) : SlotBinding → String
  | .notFound => "NotFound"
  | .standard => "NativeDefault"
  | .user v => wrapped "UserCallable" (value h v)
  | .unsupported v => wrapped "Unsupported" (value h v)

/-! ## Cached things -/

/-- The number of arguments of a shortcut, in words. -/
def arity (a : Arity) : String :=
  ["Zero", "One", "Two", "Three", "Four", "Five"].getD a.count ""

def relay (h : Heap) (r : Relay) : String :=
  record "NestedInvokeAdapter"
    [("callable", value h r.callable), ("signature", r.shape.signature.text),
      ("site_created", flag r.site.isSome)]

def allocation (h : Heap) (c : Caches) : Allocation → String
  | .native l =>
    let l := h.layoutAt l
    wrapped "Native" (record "NativeAllocator"
      [("layout", layoutId l.id), ("ctor", (l.ctors.head?.map ctor).getD "")])
  | .relay r => wrapped "Nested" (relay h (c.relayAt r))

def shortcut (h : Heap) (c : Caches) (s : Shortcut) : String :=
  record "FastCallSite"
    [("version", toString s.version.toNat), ("arity", arity s.arity),
      ("allocate", allocation h c s.allocate),
      ("initialize", optional (s.initializer.map fun r => relay h (c.relayAt r)))]

/-- A function with the plan for its arguments. -/
def plannedFunction (h : Heap) (f : FunctionRef) (plan : Option (List Nat)) : String :=
  record "FunctionTarget"
    [("func", function h f),
      ("plan", optional (plan.map fun p => list (p.map fun i => toString i)))]

def target (h : Heap) (c : Caches) : Target → String
  | .shortcut k => wrapped "Construct" (shortcut h c (c.shortcutAt k))
  | .function f plan => wrapped "Function" (plannedFunction h f plan)

def receiver (typed : Bool) : String := if typed then "TypeObject" else "Dynamic"

def site (h : Heap) (c : Caches) (s : CallSite) : String :=
  record "InvokeSite"
    [("binder", record "InvokeBinder"
        [("signature", s.shape.signature.text), ("receiver", receiver s.shape.typed)]),
      ("target", optional (s.target.map (target h c)))]

def settings (s : Settings) : String :=
  record "FastBindConfig"
    [("enabled", flag s.enabled), ("max_specialized_arity", toString s.maxArity)]

def counters (n : Counters) : String :=
  record "StatsSnapshot" <|
    [("site_builds", n.siteBuilds), ("cache_reuses", n.cacheReuses),
      ("allocator_builds", n.allocatorBuilds), ("adapter_builds", n.adapterBuilds),
      ("ineligible", n.ineligible), ("fast_hits", n.fastHits), ("misses", n.misses),
      ("fallbacks", n.fallbacks)].map fun f => (f.1, toString f.2.toNat)

def specializer (s : Specializer) : String :=
  record "FastBinder"
    [("config", settings s.settings),
      ("cache", record "FastBindCache"
        [("layouts", toString s.shelves.size), ("sites", toString s.shortcutCount),
          ("adapters", toString s.relays.size)]),
      ("stats", counters s.counters)]

def context (module : String) (s : Specializer) : String :=
  record "CodeContext" [("module", Text.quote module), ("binder", specializer s)]

end InlineCache.Inspect
