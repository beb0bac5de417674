import EntityStore.Settings
/-!
# Connection strings

A connection string lists keywords with their values, `dbname=model host='my host'`. Empty values
are left out. A value with a space, a tab, a quote or a backslash is written between single quotes,
with a backslash before every quote and backslash.
-/
namespace EntityStore

structure Conninfo where
  dbname : String
  host : String
  port : String
  user : String
  password : String
  /-- Seconds to wait for the connection; no limit is written unless positive. -/
  connectTimeout : Int
  deriving DecidableEq, Repr

namespace Conninfo

def ofEnvironment (env : Environment) : Conninfo where
  dbname := env.value "ERGRAPH_DB_NAME" "ergraph"
  host := env.value "ERGRAPH_DB_HOST" "localhost"
  port := env.value "ERGRAPH_DB_PORT" "5432"
  user := env.value "ERGRAPH_DB_USER" "postgres"
  password := env.value "ERGRAPH_DB_PASS" ""
  connectTimeout := 5

/-- The connection that settings describe, from the environment where they are silent. -/
def ofSettings (s : Settings) (env : Environment) : Conninfo :=
  let c := ofEnvironment env
  { c with
    dbname := s.text "db.name" c.dbname
    host := s.text "db.host" c.host
    port := s.text "db.port" c.port
    user := s.text "db.user" c.user
    password := s.text "db.password" c.password }

/-- The keywords that have a value, in the order they are written. -/
def pairs (c : Conninfo) : List (String × String) :=
  [("dbname", c.dbname), ("host", c.host), ("port", c.port), ("user", c.user),
    ("password", c.password),
    ("connect_timeout", if 0 < c.connectTimeout then toString c.connectTimeout else "")].filter
    fun p => p.2 ≠ ""

/-- Characters that a value cannot hold without quotes. -/
def needsQuotes (ch : Char) : Bool := ch = ' ' || ch = '\'' || ch = '\\' || ch = '\t'

def escape : List Char → List Char
  | [] => []
  | ch :: cs => if ch = '\'' || ch = '\\' then '\\' :: ch :: escape cs else ch :: escape cs

def valueText (v : String) : String :=
  if v.toList.any needsQuotes then Text.quote (String.ofList (escape v.toList)) else v

def text (c : Conninfo) : String :=
  " ".intercalate (c.pairs.map fun p => p.1 ++ "=" ++ valueText p.2)

end Conninfo

end EntityStore
