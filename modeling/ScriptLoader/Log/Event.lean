import ScriptLoader.LoadError
import ScriptLoader.Log.Level
import ScriptLoader.Text.Quoted

/-!
# What is logged

Every event of loading that a log can show, with its severity, the component that it comes from and
its line of text.

* `Event.line`: the line of an event.
-/

namespace ScriptLoader.Log

/-- Something that a log can show. -/
inductive Event where
  | dynamicImport (raw base : String) (specifier : Specifier)
  | alreadyLoaded (specifier : Specifier)
  | loading (specifier : Specifier)
  | loadFailed (specifier : Specifier) (error : LoadError)
  | reusing (specifier : Specifier)
  | circularImport (target requester : Specifier)
  | instantiating (specifier : Specifier) (isModule : Bool) (dependencies : Nat)
  | loaderReady (poolSize : Nat) (cache : Bool)
  | cacheUnavailable (directory reason : String)
  | resolutionStep (resolved pending : Nat)
  | candidateFailed (location reason : String)
  | fetched (specifier : Specifier) (location : String)
  | submitting (specifier : Specifier) (location : String)
  | cacheHit (specifier : Specifier)
  | cacheStale (specifier : Specifier)
  | cacheMiss (specifier : Specifier)
  | cacheUnreadable (specifier : Specifier) (reason : String)
  | cacheUnwritable (reason : String)
  | cacheCleared (removed : Nat)
  | unitNotSpawned (unit : Nat) (reason : String)
  | poolStarted (size : Nat)
  | unitReady (unit : Nat)
  | unitInitFailed (unit : Nat) (reason : String)
  | unitRetired (unit : Nat) (reason : String)
  | compiled (unit : Nat) (specifier : Specifier)
  | compileFailed (unit : Nat) (specifier : Specifier) (reason : String)
  | poolClosed (reason : String) (queued : Nat)
  | configFile (path : String)
  | graphResolved (modules cached : Nat)
  | moduleWritten (specifier : Specifier) (path : String)
  | cacheDirectoryCleared (removed : Nat) (directory : String)
  | sessionCacheUnavailable (reason : String)
  deriving DecidableEq

namespace Event

/-- The severity of an event. -/
def severity : Event → Level
  | loading _ | loaderReady .. | unitReady _ | graphResolved .. | cacheDirectoryCleared .. => .info
  | loadFailed .. | cacheUnavailable .. | cacheUnreadable .. | cacheUnwritable _ | unitNotSpawned ..
  | unitInitFailed .. | unitRetired .. | poolClosed .. | sessionCacheUnavailable _ => .warn
  | instantiating .. | candidateFailed .. | submitting .. => .trace
  | _ => .debug

/-- The component that an event comes from. -/
def component : Event → String
  | dynamicImport .. | alreadyLoaded _ | loading _ | loadFailed .. | reusing _ | loaderReady ..
  | cacheUnavailable .. => "tsb_core::loader"
  | circularImport .. | instantiating .. => "tsb_core::assembler"
  | resolutionStep .. | submitting .. => "tsb_core::resolver"
  | candidateFailed .. | fetched .. => "tsb_core::fetcher"
  | cacheHit _ | cacheStale _ | cacheMiss _ | cacheUnreadable .. | cacheUnwritable _
  | cacheCleared _ => "tsb_core::cache"
  | unitNotSpawned .. | poolStarted _ | unitReady _ | unitInitFailed .. | unitRetired ..
  | compiled .. | compileFailed .. | poolClosed .. => "tsb_core::compiler::pool"
  | configFile _ | sessionCacheUnavailable _ => "tsb_cli::commands::utils"
  | graphResolved .. => "tsb_cli::commands::resolve"
  | moduleWritten .. => "tsb_cli::commands::emit"
  | cacheDirectoryCleared .. => "tsb_cli::commands::cache"

/-- What happened, and its circumstances. -/
def text : Event → String
  | dynamicImport raw base s =>
    s!"dynamic import raw={Text.debugQuoted raw} base={Text.debugQuoted base} " ++
      s!"specifier={s.text}"
  | alreadyLoaded s => s!"already loaded specifier={s.text}"
  | loading s => s!"loading module specifier={s.text}"
  | loadFailed s e => s!"load failed specifier={s.text} error={e.message}"
  | reusing s => s!"reusing prepared compile specifier={s.text}"
  | circularImport t r => s!"circular import, forwarding module={t.text} requester={r.text}"
  | instantiating s isModule n =>
    let kind := if isModule then "Module" else "Script"
    s!"instantiating specifier={s.text} kind={kind} deps={n}"
  | loaderReady size cache => s!"module loader ready pool_size={size} cache={cache}"
  | cacheUnavailable dir e => s!"compile cache unavailable dir={dir} error={e}"
  | resolutionStep resolved pending => s!"resolution step resolved={resolved} pending={pending}"
  | candidateFailed location e => s!"candidate failed location={location} error={e}"
  | submitting s location => s!"submitting compile specifier={s.text} location={location}"
  | fetched s location => s!"fetched module source specifier={s.text} location={location}"
  | cacheHit s => s!"compile cache hit specifier={s.text}"
  | cacheStale s => s!"compile cache stale specifier={s.text}"
  | cacheMiss s => s!"compile cache miss specifier={s.text}"
  | cacheUnreadable s e => s!"compile cache read failed specifier={s.text} error={e}"
  | cacheUnwritable e => s!"compile cache write failed error={e}"
  | cacheCleared n => s!"compile cache cleared removed={n}"
  | unitNotSpawned u e => s!"failed to spawn compiler unit unit={u} error={e}"
  | poolStarted n => s!"compiler pool started size={n}"
  | unitReady u => s!"compiler unit ready unit={u}"
  | unitInitFailed u e => s!"compiler unit failed to initialize unit={u} error={e}"
  | unitRetired u reason =>
    s!"compiler unit retired unit={u} reason={Text.debugQuoted reason}"
  | compiled u s => s!"compiled unit={u} specifier={s.text}"
  | compileFailed u s e => s!"compile failed unit={u} specifier={s.text} error={e}"
  | poolClosed reason queued => s!"compiler pool closed reason={reason} queued={queued}"
  | configFile path => s!"using config file path={path}"
  | graphResolved modules cached => s!"graph resolved modules={modules} cached={cached}"
  | moduleWritten s path => s!"module written module={s.text} path={path}"
  | cacheDirectoryCleared n dir => s!"cache cleared removed={n} dir={dir}"
  | sessionCacheUnavailable e => s!"compile cache unavailable error={e}"

/-- The line of an event. -/
def line (e : Event) : String := e.severity.name.toUpper ++ " " ++ e.text

end Event

end ScriptLoader.Log
