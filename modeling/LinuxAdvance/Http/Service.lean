import LinuxAdvance.Http.Response

/-!
# `HttpService`

One call of `HandlerHttpService` is given what the world outside answers during
it.  The state is that of the service, its session manager, the session objects
and the static counter; `reads` are the paths `ReadFileRequest` was called with.
-/

namespace LinuxAdvance.Http

open LinuxAdvance.Foundation
open LinuxAdvance.Cxx

/-- A file that `ifstream` can open: what `tellg` says at its end, and what
`read` delivers from its beginning. -/
structure File where
  size : Int
  content : Bytes
  deriving DecidableEq, Repr

def File.filesize (file : File) : Int32 := Int32.ofInt file.size

/-- `files` are those that can be opened, `created` and `now` what `time`
returns when a session is made and when it is added, `outside` all that a
handler may look at besides its request, and `junk` the value of memory that was
not initialised. -/
structure Call where
  files : Bytes → Option File
  rand : Int32
  created : Int
  now : Int
  outside : Nat
  junk : Int32
  order : ∀ m : UnorderedMap Bytes Bytes, UnorderedMap.Order m

/-- `func_t`; it returns a response. -/
abbrev Handler := Nat → HttpRequest.Getters → HttpResponse

structure Session where
  username : Bytes
  status : Bytes
  createTime : UInt32
  deriving DecidableEq, Repr

abbrev SessionPtr := Nat

/-- An empty function in `funcs` is `none`; `objects` are the sessions ever
made, which are never deleted. -/
structure Server where
  mimeType : UnorderedMap Bytes Bytes
  statusCodeToDesc : UnorderedMap Int32 Bytes
  funcs : UnorderedMap Bytes (Option Handler) := ∅
  sessions : UnorderedMap Bytes SessionPtr := ∅
  objects : List Session := []
  number : Int32 := 0
  reads : List Bytes := []

namespace Server

/-! ## The constructor and `AddHandler` -/

/-- The loop of `LoadMimeType` and `LoadStatusDesc`; a line without a separator
ends it. -/
def loadPairs {κ : Type} [DecidableEq κ] (key : Bytes → Except Exn κ) :
    List Bytes → UnorderedMap κ Bytes → Except Exn (UnorderedMap κ Bytes × Bool)
  | [], m => .ok (m, true)
  | line :: lines, m =>
      match findSub? confSep line with
      | none => .ok (m, false)
      | some pos =>
          match key (line.take pos) with
          | .error e => .error e
          | .ok k => loadPairs key lines (m.insert k (line.drop (pos + confSep.length)))

structure Conf where
  mimeType : Option Bytes
  statusCodeDesc : Option Bytes
  deriving DecidableEq, Repr

def loadMimeType (conf : Conf) : Except Exn (UnorderedMap Bytes Bytes × Bool) :=
  match conf.mimeType with
  | none => .ok (∅, false)
  | some file => loadPairs .ok (getLines file) ∅

def loadStatusDesc (conf : Conf) : Except Exn (UnorderedMap Int32 Bytes × Bool) :=
  match conf.statusCodeDesc with
  | none => .ok (∅, false)
  | some file => loadPairs stoi (getLines file) ∅

def construct (conf : Conf) : Except Exn Server :=
  match loadMimeType conf, loadStatusDesc conf with
  | .ok (mimeType, _), .ok (statusCodeToDesc, _) =>
      .ok { mimeType, statusCodeToDesc }
  | .error e, _ => .error e
  | _, .error e => .error e

def addHandler (s : Server) (functionname : Bytes) (f : Option Handler) : Server :=
  { s with funcs := s.funcs.insert (wwwroot ++ pathSep ++ functionname) f }

/-! ## The session manager -/

def newSession (username status : Bytes) (created : Int) :
    Proc Fault Server SessionPtr := do
  let s ← Proc.get
  Proc.modify fun s =>
    { s with objects := s.objects ++ [⟨username, status, .ofInt created⟩] }
  return s.objects.length

/-- `insert` leaves a session that has the id already. -/
def addSession (call : Call) (sptr : SessionPtr) : Proc Fault Server Bytes := do
  let randnum := UInt32.ofInt (call.rand.toInt + call.now)
  let sessionid := natToString randnum.toNat
  Proc.modify fun s =>
    { s with
      sessions := s.sessions.insert sessionid ((s.sessions.lookup sessionid).getD sptr) }
  return sessionid

def getSession (s : Server) (sessionid : Bytes) : Option SessionPtr :=
  s.sessions.lookup sessionid

/-! ## Lookups with `operator[]` -/

def mimeTypeOf (suffix : Bytes) : Proc Fault Server Bytes := ⟨fun s =>
  let (v, m) := UnorderedMap.access s.mimeType suffix []
  .done v { s with mimeType := m }⟩

def descOf (code : Int32) : Proc Fault Server Bytes := ⟨fun s =>
  let (v, m) := UnorderedMap.access s.statusCodeToDesc code []
  .done v { s with statusCodeToDesc := m }⟩

def funcOf (resource : Bytes) : Proc Fault Server (Option Handler) := ⟨fun s =>
  let (v, m) := UnorderedMap.access s.funcs resource none
  .done v { s with funcs := m }⟩

/-! ## `ReadFileRequest` -/

/-- The content, and the value of `*size` when it was `size` before. -/
def readFileRequest (call : Call) (path : Bytes) (size : Int32) :
    Proc Fault Server (Bytes × Int32) := do
  Proc.modify fun s => { s with reads := s.reads ++ [path] }
  match call.files (ofCString path) with
  | none => return ([], size)
  | some file => do
      let zeros ← eval (resize (sizeOfInt file.filesize))
      let content := file.content.take zeros.length
      return (content ++ zeros.drop content.length, file.filesize)

/-! ## `HandlerHttpService` -/

def newurl : Bytes := text "http://129.204.171.204:8888/Image/2.png"

def redirResource : Bytes := text "wwwroot/redir"

def errorResource : Bytes := text "wwwroot/404.html"

def redirStatus : Demo → Int32
  | .http => 301
  | .cookieSession => 302

def addStatus (resp : HttpResponse) (code : Int32) :
    Proc Fault Server HttpResponse := do
  let desc ← descOf code
  return resp.addStatusLine code desc

def proveSession (sessionid : Bytes) : Bytes := sessionid ++ text ";"

def nextNumber : Proc Fault Server Bytes := do
  let s ← Proc.get
  if s.number = Int32.maxValue then
    Proc.raise (.exn .signedOverflow)
  else do
    Proc.modify fun s => { s with number := s.number + 1 }
    return intToString s.number.toInt

def runHandler (demo : Demo) (call : Call) (req : HttpRequest) :
    Proc Fault Server HttpResponse := do
  let f ← funcOf req.path
  match f with
  | none => Proc.raise .badFunctionCall
  | some f =>
      let resp := f call.outside req.getters
      if demo = .cookieSession ∧ req.sessionid = [] then do
        let number ← nextNumber
        let sptr ← newSession (text "user-" ++ number) (text "logined") call.created
        let sessionid ← addSession call sptr
        return resp.addHeader (text "Set-Cookie") (proveSession sessionid)
      else
        return resp

def logActivity (demo : Demo) (sessionid : Bytes) : Proc Fault Server Unit :=
  match demo with
  | .http => pure ()
  | .cookieSession =>
      if sessionid = [] then pure ()
      else do
        let s ← Proc.get
        match getSession s sessionid with
        | none => return ()
        | some sptr =>
            match s.objects[sptr]? with
            | none => Proc.raise .useAfterFree
            | some _ => return ()

def serveFile (call : Call) (req : HttpRequest) :
    Proc Fault Server HttpResponse := do
  let (textcontent, filesize) ← readFileRequest call req.path 0
  if textcontent = [] then do
    let resp ← addStatus {} 404
    let (text404, filesize) ←
      readFileRequest call (wwwroot ++ pathSep ++ errorpage) filesize
    let resp := resp.addHeader (text "Content-Length") (intToString filesize.toInt)
    let mime ← mimeTypeOf (text ".html")
    return (resp.addHeader (text "Content-Type") mime).addText text404
  else do
    let resp ← addStatus {} 200
    let resp := resp.addHeader (text "Content-Length") (intToString filesize.toInt)
    let mime ← mimeTypeOf req.suffix
    return (resp.addHeader (text "Content-Type") mime).addText textcontent

def serveResource (demo : Demo) (call : Call) (req : HttpRequest) :
    Proc Fault Server HttpResponse := do
  logActivity demo req.sessionid
  if req.path = redirResource then do
    let resp ← addStatus {} (redirStatus demo)
    let mime ← mimeTypeOf req.suffix
    return (resp.addHeader (text "Content-Type") mime).addHeader (text "Location") newurl
  else if req.path = errorResource then
    return {}
  else
    serveFile call req

def parsed (demo : Demo) (request : Bytes) : HttpRequest :=
  (HttpRequest.deSerialize demo {} request).1

def respond (demo : Demo) (call : Call) (request : Bytes) :
    Proc Fault Server HttpResponse :=
  let req := parsed demo request
  if req.isExec then runHandler demo call req else serveResource demo call req

def handlerHttpService (demo : Demo) (call : Call) (request : Bytes) :
    Proc Fault Server Bytes := do
  let resp ← respond demo call request
  return (resp.serialize call.junk (call.order resp.headerskv)).2

end Server

end LinuxAdvance.Http
