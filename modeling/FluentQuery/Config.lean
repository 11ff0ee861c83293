import FluentQuery.Cache.Lru
import FluentQuery.Logging
import FluentQuery.Sql.Dialect

/-!
# Configuration

The settings of the compiler: its parse cache, its logger and its default dialect.
-/

namespace FluentQuery

set_option autoImplicit false

structure CompilerConfig where
  parseCache : CacheConfig := {}
  logLevel : String := "info"
  /-- The file that is logged to, if any. -/
  logFile : String := ""
  defaultDialect : String := "postgres"
deriving DecidableEq, Repr, Inhabited

namespace CompilerConfig

/-- The cache settings of a section. -/
def readCache (group : Json) : Except Json.TypeError CacheConfig := do
  let enabled ← group.getD "enabled" Json.asBool true
  let capacity ← group.getD "capacity" Json.asNat64 1024
  return { enabled, capacity }

/-- Reads a configuration; absent sections and keys keep their defaults. -/
def ofJson (j : Json) : Except Json.TypeError CompilerConfig := do
  let parseCache ←
    match j.get? "parse_cache" with
    | some group => readCache group
    | none => pure {}
  let (logLevel, logFile) ←
    match j.get? "logging" with
    | some group => do
      let level ← group.getD "level" Json.asString "info"
      let file ← group.getD "file" Json.asString ""
      pure (level, file)
    | none => pure ("info", "")
  let defaultDialect ←
    match j.get? "sql" with
    | some group => group.getD "default_dialect" Json.asString "postgres"
    | none => pure "postgres"
  return { parseCache, logLevel, logFile, defaultDialect }

def toJson (c : CompilerConfig) : Json :=
  .object
    [("parse_cache", c.parseCache.toJson),
      ("logging", .object [("level", .str c.logLevel), ("file", .str c.logFile)]),
      ("sql", .object [("default_dialect", .str c.defaultDialect)])]

/-- The level the configuration asks for. -/
def level (c : CompilerConfig) : LogLevel :=
  .ofName c.logLevel

/-- The dialect the configuration asks for. -/
def dialect (c : CompilerConfig) : Except CompileError Dialect :=
  Dialect.ofName c.defaultDialect

/-- The logger once the configuration is applied: a log file starts it, otherwise only a logger
that runs changes its level. -/
def applyToLogger (c : CompilerConfig) (logger : Logger) : Logger :=
  if !c.logFile.isEmpty then logger.start c.level
  else if logger.isInitialized then logger.setLevel c.level
  else logger

end CompilerConfig

end FluentQuery
