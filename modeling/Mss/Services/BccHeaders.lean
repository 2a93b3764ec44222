import Mss.Lib.Doubles
import Mss.Lib.FloatTexts
import Mss.Services.Handshakes

/-!
# Headers that are signed

MSS signs each request to a backend, and a backend each websocket to MSS, over one text made of what
the headers say.

* `toDouble`, **`float`**: the float that a text is read as.
* `Uuid4`, `HttpMethod`, `SignedCall`: what the headers of a request are made of.
* `signedMessage`, **`createHeaders`**: the text that MSS signs, and the headers.
* `handshakeMessage`, `checkTimestamp`: the text that a backend signs, and the checks of its
  timestamp once the signature is verified.
-/

namespace Mss.Handshake

/-! ## Floats -/

/-- A number as a float has it: the nearest double, or an infinity. -/
def toDouble (q : ℚ) : Number :=
  let d := Doubles.nearest Mss.round q
  if 2 ^ 1024 ≤ |d| then .infinite (d < 0) else .finite d

/-- **The float that a text is read as.** -/
def float (text : String) : Except Exc Number :=
  match FloatText.readLiteral text.toList with
  | some (.finite q) => .ok (toDouble q)
  | some (.infinite isNegative) => .ok (.infinite isNegative)
  | some .nan => .ok .nan
  | none => .error (.valueError ("could not convert string to float: '" ++ text ++ "'"))

/-! ## Requests to a backend -/

/-- The letters of a version 4 UUID, with an 'x' for a hexadecimal digit and a 'y' for one from 8 to
'b'. -/
def uuid4Marks : List Char := "xxxxxxxx-xxxx-4xxx-yxxx-xxxxxxxxxxxx".toList

/-- Whether a letter may stand for a mark. -/
def fitsMark (mark c : Char) : Bool :=
  if mark = 'x' then c.isDigit || ('a' ≤ c && c ≤ 'f')
  else if mark = 'y' then c = '8' || c = '9' || c = 'a' || c = 'b'
  else c = mark

/-- Whether letters may stand for marks, one for each. -/
def fitsMarks : List Char → List Char → Bool
  | [], [] => true
  | mark :: marks, c :: l => fitsMark mark c && fitsMarks marks l
  | _, _ => false

/-- **The text of a version 4 UUID.** -/
def Uuid4 : Type := { text : String // fitsMarks uuid4Marks text.toList = true }

/-- The methods of the requests. -/
inductive HttpMethod
  | post | get | put | delete | patch
  deriving DecidableEq, Repr

/-- The method as text. -/
def HttpMethod.text : HttpMethod → String
  | post => "POST"
  | get => "GET"
  | put => "PUT"
  | delete => "DELETE"
  | patch => "PATCH"

/-- **What the headers of a request are made of**: what the request is given, and the nonce and the
time that are its own. -/
structure SignedCall where
  method : HttpMethod
  path : String
  userId : String := ""
  isAdmin : Option Bool := none
  nonce : Uuid4
  timestamp : ℚ

variable (h : Host)

/-- What is signed of whether the user is an admin. -/
def isAdminHeader : Option Bool → String
  | none => ""
  | some true => "True"
  | some false => "False"

/-- **The text that MSS signs.** -/
def signedMessage (c : SignedCall) : String :=
  c.userId ++ "|" ++ c.nonce.1 ++ "|" ++ h.str (.finite c.timestamp) ++ "|" ++
    isAdminHeader c.isAdmin ++ "|" ++ c.method.text ++ "|" ++ c.path

/-- The headers of a request. -/
structure BccClientHeaders where
  requestId : String
  timestamp : String
  signature : String
  userId : String
  isAdmin : Option String := none
  deriving DecidableEq, Repr

/-- **The headers that show a request to be from MSS.** -/
def createHeaders (signMessage : String → String) (c : SignedCall) : BccClientHeaders where
  requestId := c.nonce.1
  timestamp := h.str (.finite c.timestamp)
  signature := signMessage (signedMessage h c)
  userId := c.userId
  isAdmin := c.isAdmin.map fun isAdmin => isAdminHeader (some isAdmin)

/-! ## Websockets of a backend -/

/-- The text that a backend signs. -/
def handshakeMessage (name nonce timestamp : String) : String :=
  name ++ "-" ++ nonce ++ "-" ++ timestamp

/-- **The checks of a timestamp**: it is a float, and neither old nor in the future. -/
def checkTimestamp (timestamp : String) (now ttl : ℚ) : Except Exc Unit := do
  let timestamp ← float timestamp
  checkNonceAge h timestamp now ttl

end Mss.Handshake
