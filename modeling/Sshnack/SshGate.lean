import Sshnack.WireMessages

/-!
# The SSH gate

`authencesn.py` asks the server up to five times which user a fingerprint belongs to and prints an
`authorized_keys` line that forces the client as the command. What sshd and the shell do with the line
is that the text in the quotes is split at its spaces. An exception that the script does not catch
ends it without a line, and then no client starts. The server sends the id as a number.
-/

namespace Sshnack.Tui

/-! ### `authencesn.py` -/

inductive LookupOutcome where
  | requestException
  | httpError
  | malformedJson
  | missingKey
  | uncaught
  | success (userId : Int32)
  deriving DecidableEq

/-- The variables of the script, from its environment and from `/etc/environment`. -/
structure GateEnv where
  internalUrl : Option CString
  internalUrlFile : Option CString
  serverUrl : Option CString
  serverUrlFile : Option CString

/-- `or` of Python, for a string or `None`. -/
def pyOr (s t : Option CString) : Option CString := if s = none ∨ s = some [] then t else s

def GateEnv.lookupUrl (env : GateEnv) : Option CString :=
  pyOr (pyOr env.internalUrl env.internalUrlFile) (pyOr env.serverUrl env.serverUrlFile)

def maxAttempts : ℕ := 5

/-- The loop from an attempt on: `cmd` when it ends, unless an exception leaves it. -/
def lookupLoop (outcome : ℕ → LookupOutcome) : ℕ → ℕ → Option CString
  | 0, _ => some []
  | left + 1, attempt => match outcome attempt with
    | .success userId => some (ascii "--user " ++ formatInt userId)
    | .uncaught => none
    | _ => lookupLoop outcome left (attempt + 1)

def lookupCmd (env : GateEnv) (outcome : ℕ → LookupOutcome) : Option CString :=
  if env.lookupUrl.isSome then lookupLoop outcome maxAttempts 1 else some []

/-- The line that the script prints. `server` gives the outcome of each lookup of a fingerprint. -/
def authencesn (env : GateEnv) (server : CString → ℕ → LookupOutcome)
    (keyType b64key fingerprint : CString) : Option CString :=
  (lookupCmd env (server fingerprint)).map fun cmd =>
    ascii "command=\"/usr/local/app/tui " ++ cmd ++ ascii "\",restrict,pty " ++ keyType ++
      ascii " " ++ b64key ++ ascii " wanderer\n\n"

def forcedCommand (line : CString) : CString :=
  (line.drop (ascii "command=\"").length).takeWhile (· ≠ 34)

def shellWords (command : CString) : List CString :=
  (command.splitOn 32).filter (· ≠ [])

/-! ### The start of the client -/

def atoi (s : CString) : Int32 := Int32.ofInt (strtol s).1

structure TuiEnv where
  serverUrl : Option CString
  userId : Option CString
  adminToken : Option CString

structure Config where
  baseUrl : CString
  userId : Int32
  adminToken : CString
  deriving DecidableEq

def setUserId (s : CString) (userId : Int32) : Int32 := if 0 < atoi s then atoi s else userId

def userArgs : List CString → Int32 → Int32
  | flag :: value :: rest, userId =>
      if flag = ascii "--user" then userArgs rest (setUserId value userId)
      else userArgs (value :: rest) userId
  | _, userId => userId

def loadConfig (argv : List CString) (env : TuiEnv) : Config :=
  let given (v : Option CString) (default : String) : CString :=
    (v.filter (· ≠ [])).getD (ascii default)
  { baseUrl := (given env.serverUrl "http://127.0.0.1:8080").take 255
    userId := userArgs argv.tail (match env.userId.filter (· ≠ []) with
      | none => 67
      | some s => setUserId s 67)
    adminToken := (given env.adminToken "admin").take 127 }

def tuiMain (argv : List CString) (env : TuiEnv) : ApiClient :=
  let cfg := loadConfig argv env
  apiClientInit cfg.baseUrl cfg.userId cfg.adminToken

/-- A login with a key: the client that the forced command starts. -/
def sshSession (gate : GateEnv) (server : CString → ℕ → LookupOutcome)
    (keyType b64key fingerprint : CString) (env : TuiEnv) : Option ApiClient :=
  (authencesn gate server keyType b64key fingerprint).map fun line =>
    tuiMain (shellWords (forcedCommand line)) env

end Sshnack.Tui
