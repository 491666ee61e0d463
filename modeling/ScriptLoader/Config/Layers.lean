import ScriptLoader.Config.Extract
import ScriptLoader.Config.Written
import ScriptLoader.Disk.Basic
import ScriptLoader.Text.Split

/-!
# The layers of a configuration

Settings are laid over each other: the defaults, a configuration file, the variables of the
environment whose names begin with `TSB_`, and at last what a caller overrides. In the name of a
variable two low lines stand between the keys that lead to a setting. A configuration file that is
not in the working directory is looked for in the directories around it.

* `Config.ofVariables`: the settings of the environment.
* `Config.ofLayers`: the configuration of layers.
* `Config.load`: the configuration of the file and the environment.
-/

namespace ScriptLoader.Config

/-- Where settings come from. -/
inductive Origin where
  | defaults
  | file (path : String)
  | environment
  /-- What a caller overrides. -/
  | caller
  deriving DecidableEq, Inhabited

/-- Settings of one origin. -/
structure Layer where
  origin : Origin
  settings : Setting
  deriving Inhabited

/-- Why there is no configuration. -/
inductive ConfigError where
  | unusable (e : Unusable) (origin? : Option Origin)
  | invalid (e : InvalidValue)
  deriving DecidableEq, Inhabited

/-- The file that is read when none is named. -/
def defaultFile : String := "tsb.toml"

/-- The settings of a configuration. -/
def settings (c : Config) : Setting :=
  .table
    [("pool_size", (c.poolSize?.map Setting.unsigned).getD .unset),
      ("constrained", .truth c.constrained), ("max_resolution_steps", .unsigned c.limit),
      ("compile", .table [("jsx", .truth c.compile.markup), ("jsx_pragma", .text c.compile.pragma),
        ("jsx_pragma_frag", .text c.compile.fragment)]),
      ("cache", .table [("enabled", .truth c.cache.enabled), ("dir", .text c.cache.directory),
        ("force_refresh", .truth c.cache.refresh)])]

/-! ## Variables -/

/-- What the names of variables with settings begin with, in letters of either case. -/
def variableFront : List Char := ['t', 's', 'b', '_']

/-- The text with every pair of low lines replaced by a point. -/
def pointed : List Char → List Char
  | '_' :: '_' :: rest => '.' :: pointed rest
  | c :: rest => c :: pointed rest
  | [] => []

/-- The keys that the name of a variable spells, if it is the name of a setting. -/
def keysOf? (variableName : String) : Option (List String) :=
  let name := Text.trim variableName.toList
  let lowered := name.map Char.toLower
  if variableFront.isPrefixOf lowered ∧ variableFront.length < name.length then
    let keys := Text.splitOn '.' (Text.trim (pointed (lowered.drop variableFront.length)))
    if keys.any List.isEmpty then none else some (keys.map String.ofList)
  else none

/-- A value below keys. -/
def nested (keys : List String) (v : Setting) : Setting :=
  keys.foldr (fun k v => .table [(k, v)]) v

/-- The settings of the environment; of two variables for one setting the later counts. -/
def ofVariables (given : List (String × String)) : Setting :=
  given.foldl (fun acc (name, value) =>
    match keysOf? name with
    | none => acc
    | some keys => (nested keys (Written.read value)).laidOver acc) (.table [])

/-- The variables for a key and what is below it. -/
def namesBelow (front : String) : List (String × Setting) → List String
  | [] => []
  | (key, s) :: rest =>
    let name := front ++ key.toUpper
    let inner := match s with
      | .table fields => fields.map fun (k, _) => name ++ "__" ++ k.toUpper
      | _ => []
    name :: inner ++ namesBelow front rest

/-- The variables that settings are read from. -/
def variableNames : List String :=
  match settings {} with
  | .table fields => namesBelow "TSB_" fields ++ [refreshVariable]
  | _ => [refreshVariable]

/-! ## Files -/

/-- The paths at which a file is looked for. -/
def candidates (d : Disk) (path : String) : List String :=
  if path.toList.head? = some '/' then [path]
  else (List.range (d.home.length + 1)).reverse.map fun n =>
    FilePath.joinText ("/" ++ "/".intercalate (d.home.take n)) path

/-- The path of a file as it is told, from the working directory if that is shorter. -/
def toldPath (d : Disk) (path : String) : String :=
  let names := (FilePath.split path).filter fun s => s ≠ "" ∧ s ≠ "."
  let shared := ((d.home.zip names).takeWhile fun (a, b) => a = b).length
  let told := List.replicate (d.home.length - shared) FilePath.parentSegment ++ names.drop shared
  if told.length ≤ names.length then "/".intercalate told else path

/-- The settings of a file; one that is not there has none. -/
def ofFile (d : Disk) (path : String) : Except ConfigError Layer :=
  match (candidates d path).find? d.isFile with
  | none => .ok ⟨.file path, .table []⟩
  | some found =>
    let origin := Origin.file (toldPath d found)
    match (d.readText found).toOption.bind Setting.ofToml with
    | some s => .ok ⟨origin, s⟩
    | none => .error (.unusable ⟨.document, []⟩ (some origin))

/-! ## All layers -/

/-- The file that is read: the one that is named, or else one with the usual name if it is there. -/
def file? (d : Disk) (named : Option String) (usual : String) : Option String :=
  match named with
  | some path => some path
  | none => if d.holds usual then some usual else none

/-- The layers of the defaults, a file and the environment, the uppermost first. -/
def layers (d : Disk) (file : Option String) (given : List (String × String)) :
    Except ConfigError (List Layer) := do
  let fromFile ← match file with
    | some path => (ofFile d path).map ([·])
    | none => .ok []
  pure (⟨.environment, ofVariables given⟩ :: fromFile ++ [⟨.defaults, settings {}⟩])

/-- The settings of layers, the uppermost of which is the first. -/
def merged (layers : List Layer) : Setting :=
  layers.foldr (fun l below => l.settings.laidOver below) (.table [])

/-- The uppermost layer with a setting. -/
def origin? (layers : List Layer) (path : List String) : Option Origin :=
  (layers.find? fun l => (l.settings.at? path).isSome).map (·.origin)

/-- The configuration of layers, if a loader can work with it. -/
def ofLayers (layers : List Layer) : Except ConfigError Config := do
  let c ← (merged layers).config.mapError fun e => .unusable e (origin? layers e.path)
  c.validate.mapError .invalid
  pure c

/-- The configuration of the file and the environment. -/
def load (d : Disk) (named : Option String) (given : List (String × String)) :
    Except ConfigError Config := do
  ofLayers (← layers d (file? d named defaultFile) given)

/-! ## Failures as text -/

/-- Where a setting that cannot be used is found. -/
def Origin.whereabouts (path : List String) (o : Origin) : String :=
  let key (text : String) := if path.isEmpty then "" else s!" for key {Text.debugQuoted text}"
  let inDefaults := key (".".intercalate ("default" :: path))
  match o with
  | environment =>
    key (".".intercalate (path.map String.toUpper)) ++ " in \x60TSB_\x60 environment variable(s)"
  | file told => inDefaults ++ s!" in {told} TOML file"
  | defaults | caller => inDefaults

def ConfigError.message : ConfigError → String
  | invalid e => e.message
  | unusable e origin? =>
    "failed to read configuration: " ++ e.mismatch.message ++
      ((origin?.map (Origin.whereabouts e.path)).getD "")

end ScriptLoader.Config
