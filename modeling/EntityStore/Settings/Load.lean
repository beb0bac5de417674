import EntityStore.Settings.File
/-!
# Loading settings

Loading takes the ten known settings from the environment or their fallbacks, lays a settings file
over them, and checks the result: the port has to be a port, the owner has to be given, and an
unknown log level is corrected to `info`.
-/
namespace EntityStore.Settings

/-- A setting that the environment may give. -/
structure Known where
  key : String
  envName : String
  fallback : String
  deriving DecidableEq, Repr

def known : List Known :=
  [⟨"db.host", "ERGRAPH_DB_HOST", "localhost"⟩,
    ⟨"db.port", "ERGRAPH_DB_PORT", "5432"⟩,
    ⟨"db.user", "ERGRAPH_DB_USER", "postgres"⟩,
    ⟨"db.password", "ERGRAPH_DB_PASS", ""⟩,
    ⟨"db.name", "ERGRAPH_DB_NAME", "ergraph"⟩,
    ⟨"log.level", "ERGRAPH_LOG_LEVEL", "info"⟩,
    ⟨"log.file", "ERGRAPH_LOG_FILE", ""⟩,
    ⟨"engine.owner", "ERGRAPH_OWNER", "ergraph"⟩,
    ⟨"engine.strict", "ERGRAPH_STRICT", "false"⟩,
    ⟨"cascade.remove_dependent_relationship_classes", "ERGRAPH_CASCADE_RELATIONSHIP_CLASSES",
      "false"⟩]

def addEnvironment (s : Settings) (env : Environment) : Settings :=
  known.foldl (fun s k => s.set k.key (env.value k.envName k.fallback)) s

/-- A settings file by its path; a path without text has no file. -/
structure File where
  path : String
  text : Option String
  deriving DecidableEq, Repr

def File.none : File := ⟨"", Option.none⟩

/-- Settings with the verdict on them and what was written to the log on the way. -/
structure Loaded where
  settings : Settings
  valid : Bool
  log : List Log.Entry

def logLevels : List String := ["debug", "info", "warn", "error", "off"]

/-- Judges settings and corrects the log level. -/
def validate (s : Settings) : Loaded :=
  let (port, portLog) := s.int "db.port" 0
  let badPort := port ≤ 0 || 65535 < port
  let noOwner := s.text "engine.owner" "" = ""
  let level := s.text "log.level" "info"
  let badLevel := !logLevels.contains level
  { settings := if badLevel then s.set "log.level" "info" else s
    valid := !badPort && !noOwner
    log := portLog
      ++ (if badPort then [.error s!"Invalid database port: {port}"] else [])
      ++ (if noOwner then [.error "Engine owner (cursor claim marker) not configured"] else [])
      ++ (if badLevel then [.warn s!"Unknown log level {Text.quote level}, defaulting to 'info'"]
        else []) }

/-- The settings that the environment and a file leave. -/
def layered (s : Settings) (env : Environment) (file : File) : Settings :=
  (s.addEnvironment env).addLines (file.text.elim [] fileLines)

def load (s : Settings) (env : Environment) (file : File) : Loaded :=
  let fileLog := file.text.elim [] fun text =>
    lineWarnings file.path (fileLines text) ++
      [.info s!"Loaded configuration from file: {file.path}"]
  let judged := (s.layered env file).validate
  { judged with log := fileLog ++ judged.log }

end EntityStore.Settings
