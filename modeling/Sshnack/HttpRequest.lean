import Sshnack.CScan

/-!
# Requests: parsing and credentials

`parse_request` reads the NUL-terminated buffer: the first two words, then the lines up to a blank
one, keeping the credentials of the last `Authorization` line, then the body. The buffers of
`request_t` cut the path at 63 bytes, the bearer token at 127 and the body at 511. A method that is
none of the four is `none`.
-/

namespace Sshnack

inductive Method where
  | get
  | post
  | patch
  | delete
  deriving DecidableEq

inductive Role where
  | none
  | user
  | admin
  deriving DecidableEq

structure Auth where
  role : Role
  userId : Int32
  deriving DecidableEq

structure Request where
  method : Option Method
  path : CString
  body : CString
  auth : Auth
  deriving DecidableEq

def noAuth : Auth := ⟨.none, 0⟩

def authParse (bearerToken adminToken : CString) : Auth :=
  if bearerToken = [] then noAuth
  else if bearerToken = adminToken then ⟨.admin, 0⟩
  else if (strtol bearerToken).2 = [] ∧ 0 < (strtol bearerToken).1 then
    ⟨.user, Int32.ofInt (strtol bearerToken).1⟩
  else noAuth

def parseMethod (s : CString) : Option Method :=
  if s = ascii "GET" then some .get
  else if s = ascii "POST" then some .post
  else if s = ascii "PATCH" then some .patch
  else if s = ascii "DELETE" then some .delete
  else none

/-- `sscanf(raw, "%15s %63s", ..)`. -/
def scanWords (raw : CString) : Option (CString × CString) :=
  (scanWord 15 raw).bind fun method =>
    (scanWord 63 (skipSpace method.2)).map fun path => (method.1, path.1)

def bearerPrefix : CString := ascii "authorization: bearer "

/-- The bearer token of a line, if it has one; the prefix has no CR, so it is compared within the
line. -/
def bearerOf (line : CString) : Option CString :=
  if (line.take 22).map toLower = bearerPrefix then some ((line.drop 22).take 127) else none

/-- The loop over the lines: the bearer token and the text where the loop ends. -/
def headerLoop : ℕ → CString → CString → CString × CString
  | 0, p, bearer => (bearer, p)
  | fuel + 1, p, bearer => match splitCrlf p with
    | none => (bearer, p)
    | some ([], rest) => (bearer, rest)
    | some (line, rest) => headerLoop fuel rest ((bearerOf line).getD bearer)

def parseRequest (adminToken raw : CString) : Request :=
  match scanWords raw with
  | none => ⟨none, [], [], noAuth⟩
  | some (method, path) => match splitCrlf raw with
    | none => ⟨parseMethod method, path, [], noAuth⟩
    | some (_, p) =>
        ⟨parseMethod method, path, (headerLoop (p.length + 1) p []).2.take 511,
          authParse (headerLoop (p.length + 1) p []).1 adminToken⟩

/-- The C string in a received buffer: what comes before the first NUL. -/
def cString (bytes : List UInt8) : CString := bytes.takeWhile (· ≠ 0)

end Sshnack
