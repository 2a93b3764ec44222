import Mss.Lib.Prog
import Mss.Lib.Table
import Mss.Records

/-!
# Submitting a job

The dashboard submits a job as text. MSS creates it, as it does for the SDK, and uploads its file to
the backend; it deletes the job if the upload raises one of the errors listed.

* `Json`, `Exchange`: what the backend answers to a request, or how the request fails.
* `getToken`, `uploadJob`: the client's requests, and what each answer raises.
* `Op`, `exec`: the operations on the database and the requests to the backend.
* **`submitJob`**: the submission.
-/

namespace Mss.Submission

open Atomic Storage Prog

/-! ## What the backend answers -/

/-- A JSON value, as it is read. -/
inductive Json where
  | null
  | bool (b : Bool)
  | int (i : ℤ)
  | float (q : ℚ)
  | str (s : String)
  | array (items : List Json)
  | object (entries : List (String × Json))

/-- The body of a response: JSON, another text, or bytes that are no text. -/
inductive Body
  | json (v : Json)
  | text (s : String)
  | undecodable

/-- A response. -/
structure Response where
  statusCode : ℕ
  body : Body

/-- Whether the status is a client's or a server's error. -/
def Response.isError (response : Response) : Bool :=
  400 ≤ response.statusCode && response.statusCode ≤ 599

/-- How a request fails without a response. -/
inductive RequestError
  | connect
  | timeout
  | read
  | write
  | close
  | localProtocol
  | remoteProtocol
  | proxy
  | unsupportedProtocol
  | decoding
  | tooManyRedirects
  deriving DecidableEq, Repr

/-- The failures that the client reads as the device being unavailable. -/
def RequestError.isUnavailable : RequestError → Bool
  | connect | timeout => true
  | _ => false

/-- What a request comes to. -/
inductive Exchange
  | response (r : Response)
  | raised (e : RequestError)

/-! ## What is raised -/

/-- The errors raised. -/
inductive SubmitExc
  | unauthorized (msg : String)
  | forbidden (msg : String)
  | unknownBcc (msg : String)
  | notFound (msg : String)
  | duplicateKey
  | serviceUnavailable (msg : String)
  | bccHttp (statusCode : ℕ) (message : Json)
  | invalidCircuit (index message line column : Json)
  | request (e : RequestError)
  | jsonDecode
  | unicodeDecode
  | attributeError (name : String)
  | typeError
  | keyError (key : String)
  | decryption

/-- The JSON of a response. -/
def Response.json (response : Response) : Except SubmitExc Json :=
  match response.body with
  | .json v => .ok v
  | .text _ => .error .jsonDecode
  | .undecodable => .error .unicodeDecode

/-- A column from 1, of one from 0. -/
def columnFromOne : Json → Except SubmitExc Json
  | .null => .ok .null
  | .int i => .ok (.int (i + 1))
  | .bool b => .ok (.int (b.toInt + 1))
  | .float q => .ok (.float (q + 1))
  | _ => .error .typeError

/-- Raise the circuit that a response's detail names, if it names one. -/
def raiseForDetail (detail : Json) : Except SubmitExc Unit :=
  match detail with
  | .object detail =>
    match detail.lookup "circuit_index" with
    | none => .ok ()
    | some index => do
      let column ← columnFromOne ((detail.lookup "column").getD .null)
      throw (.invalidCircuit index ((detail.lookup "message").getD (.str ""))
        ((detail.lookup "line").getD .null) column)
  | _ => .ok ()

/-- Raise the circuit that the backend refused, if its 422 names one. -/
def raiseForInvalidCircuit (response : Response) : Except SubmitExc Unit :=
  if response.statusCode ≠ 422 then .ok ()
  else
    match response.json with
    | .ok (.object entries) => raiseForDetail ((entries.lookup "detail").getD .null)
    | .ok _ => .error (.attributeError "get")
    | .error .jsonDecode => .ok ()
    | .error e => .error e

/-- The error message of a response. -/
def extractErrorMessage (response : Response) : Except SubmitExc Json :=
  match response.body with
  | .json (.object entries) => .ok ((entries.lookup "detail").getD .null)
  | .json _ => .error (.attributeError "get")
  | .text s => .ok (.str s)
  | .undecodable => .error .unicodeDecode

/-- Raise the backend's HTTP error, if the response is one. -/
def raiseForBccError (response : Response) : Except SubmitExc Unit :=
  if response.isError then do
    throw (.bccHttp response.statusCode (← extractErrorMessage response))
  else .ok ()

/-- What sending a request gives: its response, or an error. -/
def send : Exchange → Except SubmitExc Response
  | .response r => .ok r
  | .raised e =>
    if e.isUnavailable then .error (.serviceUnavailable "device is currently unavailable")
    else .error (.request e)

/-- The value of a key of a JSON object. -/
def getItem (v : Json) (key : String) : Except SubmitExc Json :=
  match v with
  | .object entries =>
    match entries.lookup key with
    | some item => .ok item
    | none => .error (.keyError key)
  | _ => .error .typeError

/-- Decrypt a token, which has to be a text. -/
def decryptMessage (decrypt : String → Except SubmitExc String) :
    Json → Except SubmitExc (String × String)
  | .str encrypted => (decrypt encrypted).map fun token => (encrypted, token)
  | _ => .error .typeError

/-- **The token of a job**, encrypted and plain, of the answer to the request for it. -/
def getToken (decrypt : String → Except SubmitExc String) (exchange : Exchange) :
    Except SubmitExc (String × String) := do
  let response ← send exchange
  raiseForBccError response
  decryptMessage decrypt (← getItem (← response.json) "access_token")

/-- **Upload a job file**: what the answer raises. -/
def uploadJob (exchange : Exchange) : Except SubmitExc Unit := do
  let response ← send exchange
  raiseForInvalidCircuit response
  raiseForBccError response

/-! ## Jobs -/

/-- A circuit as its author wrote it. -/
structure CircuitSource where
  name : String
  qasm : String
  name_length : 1 ≤ name.length ∧ name.length ≤ 64
  qasm_length : 1 ≤ qasm.length ∧ qasm.length ≤ 200000
  deriving DecidableEq

/-- What a measurement gives: all shots, or their average. -/
inductive MeasReturn
  | single | avg
  deriving DecidableEq, Repr

/-- **The circuits and settings** that a job is submitted with. -/
structure JobSource where
  shots : ℕ
  measLevel : ℕ := 2
  measReturn : MeasReturn := .single
  circuits : List CircuitSource
  shots_range : 0 < shots ∧ shots ≤ 1000000
  measLevel_range : measLevel = 1 ∨ measLevel = 2
  circuits_length : 1 ≤ circuits.length ∧ circuits.length ≤ 20
  deriving DecidableEq

/-- A job as the dashboard submits it. -/
structure JobSubmission extends JobSource where
  projectId : Id
  device : String

/-- A circuit of a job file. -/
structure QasmCircuit where
  name : String
  qasm : String

/-- The file that is uploaded to run a job. -/
structure JobFile where
  jobId : String
  circuits : List QasmCircuit
  shots : ℕ
  measLevel : ℕ
  measReturn : MeasReturn

/-- The file that runs the circuits as they are written. -/
def JobFile.fromSource (jobId : String) (source : JobSource) : JobFile where
  jobId := jobId
  circuits := source.circuits.map fun circuit => ⟨circuit.name, circuit.qasm⟩
  shots := source.shots
  measLevel := source.measLevel
  measReturn := source.measReturn

/-- A job, as it is stored. -/
structure Job where
  jobId : String
  device : String
  calibrationDate : String
  projectId : Option Id
  userId : Option Id
  source : Option JobSource := none
  accessToken : Option String := none

/-- The client of a backend. -/
structure BccClient where
  name : String
  publicBaseUrl : String

/-- The response when a job is created. -/
structure CreatedJobResponse where
  jobId : String
  uploadUrl : String
  accessToken : String

/-! ## Operations -/

/-- What a backend answers: to the request for a token, and to an upload. -/
structure Bcc where
  token : String → Option Id → Bool → Exchange
  upload : JobFile → String → Exchange

/-- The projects and the jobs that are stored. -/
structure World where
  projects : Table Project Project.id
  jobs : Table Job Job.jobId

/-- **The operations** on the database, and the requests to a backend. -/
inductive Op
  | findProjectOfMember (projectId userId : Id)
  | getProject (projectId : Id)
  | requestToken (backend jobId : String) (userId : Option Id) (isPulseAllowed : Bool)
  | insertJob (job : Job)
  | postJob (backend : String) (file : JobFile) (token : String)
  | deleteJob (jobId : String)
  | setSource (jobId : String) (source : JobSource)
  | getJob (jobId : String)

/-- What an operation answers. -/
@[reducible] def Resp : Op → Type
  | .findProjectOfMember _ _ => Option Project
  | .getProject _ => Option Project
  | .requestToken _ _ _ _ => Exchange
  | .insertJob _ => Except SubmitExc Unit
  | .postJob _ _ _ => Exchange
  | .deleteJob _ => Option Job
  | .setSource _ _ => Option Job
  | .getJob _ => Option Job

/-- The jobs after one has its source set. -/
def setSource (jobs : Table Job Job.jobId) (jobId : String) (source : JobSource) :
    Table Job Job.jobId :=
  jobs.modify jobId (fun job => { job with source := some source }) fun _ => rfl

/-- **What an operation answers and leaves.** -/
def exec (bcc : String → Bcc) (o : Op) (w : World) : Resp o × World :=
  match o with
  | .findProjectOfMember projectId userId =>
    ((w.projects.get projectId).filter (userId ∈ ·.userIds), w)
  | .getProject projectId => (w.projects.get projectId, w)
  | .requestToken backend jobId userId isPulseAllowed =>
    ((bcc backend).token jobId userId isPulseAllowed, w)
  | .insertJob job =>
    match w.jobs.insert? (fun _ _ => False) job with
    | some jobs => (.ok (), { w with jobs })
    | none => (.error .duplicateKey, w)
  | .postJob backend file token => ((bcc backend).upload file token, w)
  | .deleteJob jobId => (w.jobs.get jobId, { w with jobs := w.jobs.erase jobId })
  | .setSource jobId source =>
    ((setSource w.jobs jobId source).get jobId, { w with jobs := setSource w.jobs jobId source })
  | .getJob jobId => (w.jobs.get jobId, w)

/-! ## The submission -/

/-- What a project and its user have to have. -/
structure AccessRule where
  isQpuRequired : Bool := false
  roles : List UserRole := []

/-- The rule of an app token that runs jobs. -/
def strict : AccessRule := { isQpuRequired := true }

/-- Check that the owner of an app token may act on its project under the rule. -/
def checkProjectAccess (show_ : Project → String) (owner : Option TokenOwner) (rule : AccessRule) :
    Except SubmitExc TokenOwner :=
  match owner with
  | none => .error (.unauthorized "Unauthorized")
  | some owner =>
    if !owner.project.isActive || !owner.user.isActive then .error (.unauthorized "Unauthorized")
    else if rule.isQpuRequired && owner.project.qpuSeconds ≤ 0 then
      .error (.forbidden (show_ owner.project))
    else if !rule.roles.isEmpty && rule.roles.all (· ∉ owner.user.roles) then
      .error (.forbidden "Forbidden")
    else .ok owner

/-- A program of the submission. -/
abbrev Service (α : Type) : Type := Prog Resp SubmitExc α

/-- Call one operation. -/
abbrev call (o : Op) : Service (Resp o) := Prog.perform o

variable (decrypt : String → Except SubmitExc String) (show_ : Project → String)
  (clients : List BccClient)

/-- The project, if the user is its member and it may run jobs. -/
def getProjectWithQpu (projectId : Id) (user : User) : Service Project := do
  let project ← call (.findProjectOfMember projectId user.id)
  let owner ← ofExcept (checkProjectAccess show_ (project.map fun project => ⟨project, user⟩) strict)
  return owner.project

/-- The client of a backend. -/
def getClient (backend : String) : Except SubmitExc BccClient :=
  match clients.find? (·.name = backend) with
  | some client => .ok client
  | none => .error (.unknownBcc ("Unknown backend '" ++ backend ++ "'"))

/-- The project that a new job is billed to, if it is billed to one. -/
def projectOfJob (projectId : Option Id) : Service (Option Project) :=
  match projectId with
  | none => pure none
  | some projectId => call (.getProject projectId)

/-- **Create a job** for a backend, with the token that the backend issues. -/
def createJob (bccClient : BccClient) (job : Job) : Service CreatedJobResponse := do
  let project ← projectOfJob job.projectId
  let exchange ← call (.requestToken bccClient.name job.jobId job.userId
    (project.any (·.isPulseAllowed)))
  let (encryptedToken, token) ← ofExcept (getToken decrypt exchange)
  ofExcept (← call (.insertJob { job with accessToken := some encryptedToken }))
  return ⟨job.jobId, bccClient.publicBaseUrl ++ "/jobs", token⟩

/-- The job of an id. -/
def getJob (jobId : String) : Service Job := do
  match ← call (.getJob jobId) with
  | none => throw (.notFound ("no matches for '\x7b'job_id': '" ++ jobId ++ "'\x7d'"))
  | some job => pure job

/-- The errors at which the backend has not taken the job. -/
def SubmitExc.isListed : SubmitExc → Bool
  | .invalidCircuit _ _ _ _ | .bccHttp _ _ | .serviceUnavailable _ => true
  | _ => false

/-- Upload the file of a job that was created, and delete the job if the backend never took it. -/
def uploadCreated (bccClient : BccClient) (created : CreatedJobResponse) (jobFile : JobFile) :
    Service Unit :=
  tryCatch (do ofExcept (uploadJob (← call (.postJob bccClient.name jobFile created.accessToken))))
    fun e =>
      if e.isListed then do
        let _ ← call (.deleteJob created.jobId)
        throw e
      else throw e

/-- **Submit a job**, under the id that it is given. -/
def submitJob (jobId : String) (submission : JobSubmission) (user : User)
    (calibrationDate : String) : Service Job := do
  let project ← getProjectWithQpu show_ submission.projectId user
  let bccClient ← ofExcept (getClient clients submission.device)
  let created ← createJob decrypt bccClient
    { jobId, device := submission.device, calibrationDate,
      projectId := some project.id, userId := some user.id }
  uploadCreated bccClient created (.fromSource created.jobId submission.toJobSource)
  let _ ← call (.setSource created.jobId submission.toJobSource)
  let job ← getJob created.jobId
  return { job with accessToken := none }

end Mss.Submission
