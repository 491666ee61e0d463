import ScriptLoader.Config.Basic
import ScriptLoader.Config.Value

/-!
# Configurations from settings

Takes a configuration out of settings of any kind. Fields are looked at in the order of their keys,
and the first that is of the wrong kind is reported with the keys that lead to it. Fields that no
configuration has are passed over, and those that are missing keep their default. A group of fields
may also be an array, whose items are the fields in the order of the group.

* `Setting.config`: the configuration of settings.
-/

namespace ScriptLoader.Config

/-- What is wrong with a setting. -/
inductive Mismatch where
  /-- It is of another kind. -/
  | kind (found expected : String)
  /-- It is of the right kind and out of range. -/
  | value (found expected : String)
  /-- The document cannot be read. -/
  | document
  deriving DecidableEq, Inhabited

def Mismatch.message : Mismatch → String
  | kind found expected => s!"invalid type: found {found}, expected {expected}"
  | value found expected => s!"invalid value {found}, expected {expected}"
  | document => ""

/-- A setting that cannot be used, and the keys that lead to it. -/
structure Unusable where
  mismatch : Mismatch
  path : List String := []
  deriving DecidableEq, Inhabited

namespace Setting

/-- A failure below a key. -/
def inKey {α : Type} (key : String) (r : Except Unusable α) : Except Unusable α :=
  r.mapError fun e => { e with path := key :: e.path }

def unusable {α : Type} (s : Setting) (expected : String) : Except Unusable α :=
  .error ⟨.kind s.described expected, []⟩

def asTruth : Setting → Except Unusable Bool
  | truth b => .ok b
  | s => s.unusable "a boolean"

def asText : Setting → Except Unusable String
  | text s => .ok s
  | character c => .ok (String.singleton c)
  | s => s.unusable "a string"

def asPath : Setting → Except Unusable String
  | text s => .ok s
  | character c => .ok (String.singleton c)
  | s => s.unusable "path string"

def asNumber : Setting → Except Unusable Nat
  | unsigned n => .ok n
  | signed i =>
    if 0 ≤ i then .ok i.toNat else .error ⟨.value (signed i).described "usize", []⟩
  | s => s.unusable "usize"

def asNumber? : Setting → Except Unusable (Option Nat)
  | unset => .ok none
  | s => s.asNumber.map some

/-- Reads the fields that are given, in their order, into a group. -/
def fold {α : Type} (read : String → Option (Setting → α → Except Unusable α)) :
    List (String × Setting) → α → Except Unusable α
  | [], group => .ok group
  | (k, s) :: rest, group =>
    match read k with
    | none => fold read rest group
    | some set => do
      let group ← inKey k (set s group)
      fold read rest group

/-- Reads the items of an array into the fields of a group, in the order of the fields. -/
def foldItems {α : Type} : Nat → List (Setting → α → Except Unusable α) → List Setting → α →
    Except Unusable α
  | i, set :: sets, s :: rest, group => do
    let group ← inKey (toString i) (set s group)
    foldItems (i + 1) sets rest group
  | _, _, _, group => .ok group

/-- A group of fields by name, in its order. -/
def asGroup {α : Type} (name : String)
    (readers : List (String × (Setting → α → Except Unusable α))) (group : α) :
    Setting → Except Unusable α
  | table fields =>
    fold (fun k => List.lookup k readers) (fields.mergeSort fun a b => a.1 ≤ b.1) group
  | array items => foldItems 0 (readers.map (·.2)) items group
  | s => s.unusable name

/-- A reader of one field. -/
def set {α β : Type} (read : Setting → Except Unusable β) (put : β → α → α) (s : Setting)
    (group : α) : Except Unusable α :=
  (read s).map (put · group)

def asOptions : Setting → Except Unusable Compile.Options :=
  asGroup "struct CompileOptions"
    [("jsx", set asTruth fun v (o : Compile.Options) => { o with markup := v }),
      ("jsx_pragma", set asText fun v o => { o with pragma := v }),
      ("jsx_pragma_frag", set asText fun v o => { o with fragment := v })] {}

def asCache : Setting → Except Unusable CacheSettings :=
  asGroup "struct CacheConfig"
    [("enabled", set asTruth fun v (c : CacheSettings) => { c with enabled := v }),
      ("dir", set asPath fun v c => { c with directory := v }),
      ("force_refresh", set asTruth fun v c => { c with refresh := v })] {}

/-- The configuration of settings. -/
def config : Setting → Except Unusable Config :=
  asGroup "struct LoaderConfig"
    [("pool_size", set asNumber? fun v (c : Config) => { c with poolSize? := v }),
      ("constrained", set asTruth fun v c => { c with constrained := v }),
      ("max_resolution_steps", set asNumber fun v c => { c with limit := v }),
      ("compile", set asOptions fun v c => { c with compile := v }),
      ("cache", set asCache fun v c => { c with cache := v })] {}

end Setting

end ScriptLoader.Config
