import Mss.Lib.Doubles
import Mss.Lib.FloatTexts
import Mss.Lib.Pool
import Mss.Lib.ScriptNumbers
import Mss.Lib.Table
import Mss.Services.Jobs

/-!
# Websocket handshakes of the backends

A backend signs its websocket's name, nonce and timestamp. The handshake is accepted if the
signature verifies, the timestamp is fresh and the nonce was not used before; a nonce is kept until
it expires, when a sweep deletes it.

* `Number`: a number as the code's floats have it, with the infinities and the undefined one.
* `BccNonce`, `World`, `Op`, `exec`: the nonces kept, the clock that all share, the operations.
* `checkNonceAge`, `claimBccNonce`, **`getVerifiedDeviceName`**: the checks of a handshake.
* `deleteExpiredRecords`: one sweep.
-/

namespace Mss.Handshake

open Atomic Storage Prog

/-! ## Numbers -/

/-- A number as a float has it. -/
abbrev Number := FloatText.Literal

namespace Number

/-- A finite number less another number. -/
def subFrom (x : ℚ) : Number → Number
  | .finite y => .finite (x - y)
  | .infinite isNegative => .infinite !isNegative
  | .nan => .nan

/-- Whether the number exceeds a finite one. -/
def exceeds : Number → ℚ → Bool
  | .finite x, y => y < x
  | .infinite isNegative, _ => !isNegative
  | .nan, _ => false

/-- Whether the number is less than 0. -/
def isNegative : Number → Bool
  | .finite x => x < 0
  | .infinite isNegative => isNegative
  | .nan => false

end Number

/-- The double nearest to a number. -/
abbrev nearestDouble (q : ℚ) : ℚ := Doubles.nearest Mss.round q

/-- The microseconds of some seconds: the whole ones exactly, and the rest as a product of floats. -/
def microsOf (seconds : ℚ) : ℤ :=
  Mss.round (Script.trunc seconds * 1000000 +
    nearestDouble (1000000 * (seconds - Script.trunc seconds)))

/-! ## Nonces, the clock and the operations -/

/-- The errors raised. -/
inductive Exc
  | keyError (key : String)
  | attributeError (name : String)
  | valueError (msg : String)
  | invalidSignature
  | duplicateKey
  | webSocketException (code : ℕ) (reason : String)
  | other
  deriving DecidableEq, Repr

/-- A nonce of a backend's handshake, kept until it expires. -/
structure BccNonce where
  nonce : String
  deviceName : String
  expiresAt : DateTime
  deriving DecidableEq, Repr

/-- The nonce as the database gives it back. -/
def BccNonce.stored (b : Backend) (r : BccNonce) : BccNonce :=
  { r with expiresAt := r.expiresAt.stored b }

/-- **What the processes share**: the clock, in microseconds, and the nonces kept. -/
structure World where
  backend : Backend
  now : ℤ
  nonces : Table BccNonce BccNonce.nonce := .empty

/-- **The operations**; time passes by one of its own. -/
inductive Op
  | readClock
  | insertNonce (r : BccNonce)
  | deleteExpired (now : ℤ)
  | passTime (micros : ℕ)
  deriving DecidableEq

/-- What an operation answers. -/
@[reducible] def Resp : Op → Type
  | .readClock => ℤ
  | .insertNonce _ => Except Exc Unit
  | .deleteExpired _ => Unit
  | .passTime _ => Unit

/-- **What an operation answers and leaves.** -/
def exec (o : Op) (w : World) : Resp o × World :=
  match o with
  | .readClock => (w.now, w)
  | .insertNonce r => match w.nonces.insert? (fun _ _ => False) (r.stored w.backend) with
    | some nonces => (.ok (), { w with nonces })
    | none => (.error .duplicateKey, w)
  | .deleteExpired now =>
    ((), { w with nonces := w.nonces.eraseWhere fun r => r.expiresAt.utcMicros ≤ now })
  | .passTime micros => ((), { w with now := w.now + micros })

/-- A program of the handshakes. -/
abbrev Service (α : Type) : Type := Prog Resp Exc α

/-- Call one operation. -/
abbrev call (o : Op) : Service (Resp o) := Prog.perform o

/-! ## The handshake -/

/-- The configuration of one backend. -/
structure BccConfig where
  name : String
  urlHost : String
  publicKeyPath : String
  isStrictIp : Bool := true

/-- The settings of the app. -/
structure Settings where
  backends : List BccConfig
  bccNonceTtl : ℚ := 300

/-- The backend of a name: the last one of it. -/
def Settings.backendOf (s : Settings) (name : String) : Except Exc BccConfig :=
  match s.backends.reverse.find? (·.name = name) with
  | some conf => .ok conf
  | none => .error (.keyError name)

/-- What the host gives: reading and writing floats, the address of a host name, and the
verification of a signature under a key. -/
structure Host where
  float : String → Except Exc Number
  str : Number → String
  getHostByName : String → Except Exc String
  verify : String → String → String → Except Exc Unit

/-- A websocket request. -/
structure WebSocket where
  headers : List (String × String)
  clientHost : Option String

/-- What a backend signs its websocket with. -/
structure SignedHeaders where
  name : String
  nonce : String
  timestamp : String
  signature : String
  deriving DecidableEq, Repr

variable (h : Host) (settings : Settings)

/-- The value of a header. -/
def WebSocket.header (ws : WebSocket) (key : String) : Except Exc String :=
  match ws.headers.lookup key with
  | some value => .ok value
  | none => .error (.keyError key)

/-- Read the headers a backend signs its websocket with. -/
def readSignedHeaders (ws : WebSocket) : Except Exc SignedHeaders := do
  let name ← ws.header "x-id"
  let nonce ← ws.header "x-request-id"
  let timestamp ← ws.header "x-timestamp"
  let signature ← ws.header "x-signature"
  return { name, nonce, timestamp, signature }

/-- Check the client's address, if the backend asks for that. -/
def checkClientIp (ws : WebSocket) (conf : BccConfig) : Except Exc Unit := do
  match ws.clientHost with
  | none => throw (.attributeError "host")
  | some clientHost =>
    let clientIp ← h.getHostByName clientHost
    if conf.isStrictIp then
      let ip ← h.getHostByName conf.urlHost
      if clientIp ≠ ip then throw (.valueError ("unexpected websocket client IP " ++ clientIp))

/-- Check that the nonce's timestamp is neither older than `ttl` seconds nor in the future. -/
def checkNonceAge (timestamp : Number) (now ttl : ℚ) : Except Exc Unit :=
  let age := Number.subFrom now timestamp
  if age.exceeds ttl then
    throw (.valueError ("nonce of timestamp " ++ h.str timestamp ++ " is " ++ h.str age ++
      "s older than " ++ h.str (.finite ttl) ++ " seconds"))
  else if age.isNegative then
    throw (.valueError ("timestamp " ++ h.str timestamp ++ " is in the future"))
  else pure ()

/-- Claim the nonce a backend signed its handshake with, telling whether it was new. -/
def claimBccNonce (deviceName nonce : String) (ttl : ℚ) : Service Bool := do
  let now ← call .readClock
  let record : BccNonce :=
    { nonce, deviceName, expiresAt := ⟨now + microsOf ttl, some 0⟩ }
  match ← call (.insertNonce record) with
  | .ok _ => pure true
  | .error .duplicateKey => pure false
  | .error e => throw e

/-- Claim the nonce, checking it was not used before. -/
def checkNonceUnused (headers : SignedHeaders) (ttl : ℚ) : Service Unit := do
  let isNewNonce ← claimBccNonce headers.name headers.nonce ttl
  if !isNewNonce then
    throw (.valueError ("duplicate request nonce: '" ++ headers.nonce ++ "'"))

/-- The errors that are refused as unauthorized. -/
def Exc.isRefused : Exc → Bool
  | .keyError _ | .invalidSignature | .valueError _ | .attributeError _ => true
  | _ => false

/-- **The device name of a handshake that is verified.** -/
def getVerifiedDeviceName (ws : WebSocket) : Service String :=
  tryCatch
    (do
      let headers ← ofExcept (readSignedHeaders ws)
      let conf ← ofExcept (settings.backendOf headers.name)
      ofExcept (checkClientIp h ws conf)
      ofExcept (h.verify headers.signature
        (headers.name ++ "-" ++ headers.nonce ++ "-" ++ headers.timestamp) conf.publicKeyPath)
      let timestamp ← ofExcept (h.float headers.timestamp)
      let now ← call .readClock
      ofExcept (checkNonceAge h timestamp ((now : ℚ) / 1000000) settings.bccNonceTtl)
      checkNonceUnused headers settings.bccNonceTtl
      return headers.name)
    fun e => if e.isRefused then throw (.webSocketException 1008 "unauthorized") else throw e

/-! ## The sweep -/

/-- One sweep: delete the records expired by the time it reads first. -/
def deleteExpiredRecords : Service Unit := do
  let now ← call .readClock
  call (.deleteExpired now)

end Mss.Handshake
