import LinuxAdvance.Cxx.Library

/-!
# `HttpRequest`

The two programs under `day_01/demo_02` share this code; `cookie_session` also
looks for a cookie among the header lines.
-/

namespace LinuxAdvance.Http

open LinuxAdvance.Foundation
open LinuxAdvance.Cxx

inductive Demo where
  | http
  | cookieSession
  deriving DecidableEq, Repr

def sep : Bytes := text "\r\n"

def reqHeaderSep : Bytes := text ": "

def wwwroot : Bytes := text "wwwroot"

def homepage : Bytes := text "index.html"

def httpVersion : Bytes := text "HTTP/1.0"

def space : Bytes := text " "

def confSep : Bytes := text ": "

def reqPathSuffixSep : Bytes := text "."

def errorpage : Bytes := text "404.html"

def uriSep : Bytes := text "?"

def pathSep : Bytes := text "/"

structure HttpRequest where
  reqLine : Bytes := []
  reqHeader : List Bytes := []
  reqText : Bytes := []
  reqMethod : Bytes := []
  uri : Bytes := []
  args : Bytes := []
  path : Bytes := wwwroot
  suffix : Bytes := []
  version : Bytes := []
  headerskv : UnorderedMap Bytes Bytes := ∅
  cookies : List Bytes := []
  sessionid : Bytes := []

/-- What a handler can read of its request; `SessionId` is a member in
`cookie_session` only. -/
structure HttpRequest.Getters where
  path : Bytes
  suffix : Bytes
  method : Bytes
  args : Bytes
  reqText : Bytes
  sessionId : Bytes
  deriving DecidableEq, Repr

def HttpRequest.getters (req : HttpRequest) : HttpRequest.Getters where
  path := req.path
  suffix := req.suffix
  method := req.reqMethod
  args := req.args
  reqText := req.reqText
  sessionId := req.sessionid

def getOneLine (reqstr : Bytes) : Bytes × Bytes :=
  match findSub? sep reqstr with
  | none => ([], reqstr)
  | some pos =>
      let line := reqstr.take pos
      (if line = [] then sep else line, eraseFront reqstr (pos + sep.length))

namespace HttpRequest

/-- At most `n` rounds of the loop of `DeSerialize`. -/
def readHeader : Nat → HttpRequest → Bytes → HttpRequest × Bytes
  | 0, req, reqstr => (req, reqstr)
  | n + 1, req, reqstr =>
      let (line, rest) := getOneLine reqstr
      if line = [] then (req, rest)
      else if line = sep then ({ req with reqText := rest }, rest)
      else readHeader n { req with reqHeader := req.reqHeader ++ [line] } rest

/-- Arguments after a question mark are cut off for the method `get` only. -/
def splitArgs (req : HttpRequest) : HttpRequest :=
  if strcasecmpEq req.reqMethod (text "get") then
    match findSub? uriSep req.uri with
    | some pos =>
        { req with args := req.uri.drop (pos + 1), uri := req.uri.take pos }
    | none => { req with args := [] }
  else req

def appendPath (req : HttpRequest) : HttpRequest :=
  let path := req.path ++ req.uri
  { req with path := if path.getLast? = some 47 then path ++ homepage else path }

def parseReqLine (req : HttpRequest) : HttpRequest × Bool :=
  if req.reqLine = [] then (req, false)
  else
    let (reqMethod, stream) := extract req.reqLine req.reqMethod
    let (uri, stream) := extract stream req.uri
    let (version, _) := extract stream req.version
    let req := appendPath (splitArgs { req with reqMethod, uri, version })
    match rfindSub? reqPathSuffixSep req.path with
    | none => (req, false)
    | some pos => ({ req with suffix := req.path.drop pos }, true)

/-- The loop of `ParseReqHeader`; a line without a separator ends it. -/
def parseHeaders (demo : Demo) : List Bytes → HttpRequest → HttpRequest × Bool
  | [], req => (req, true)
  | header :: headers, req =>
      match findSub? reqHeaderSep header with
      | none => (req, false)
      | some pos =>
          let key := header.take pos
          let value := header.drop (pos + reqHeaderSep.length)
          let req := { req with headerskv := req.headerskv.insert key value }
          if demo = .cookieSession ∧ key = text "Cookie" then
            parseHeaders demo headers
              { req with sessionid := value, cookies := req.cookies ++ [value] }
          else
            parseHeaders demo headers req

def parseReqHeader (demo : Demo) (req : HttpRequest) : HttpRequest × Bool :=
  parseHeaders demo req.reqHeader req

/-- The request and what is left of `reqstr`; it returns `true` whatever the
parsers return. -/
def deSerialize (demo : Demo) (req : HttpRequest) (reqstr : Bytes) :
    HttpRequest × Bytes :=
  let (line, rest) := getOneLine reqstr
  let (req, rest) := readHeader (rest.length + 1) { req with reqLine := line } rest
  let (req, _) := parseReqLine req
  let (req, _) := parseReqHeader demo req
  (req, rest)

def isExec (req : HttpRequest) : Bool := req.args ≠ [] || req.reqText ≠ []

/-! ## The loop of `DeSerialize` ends -/

theorem length_getOneLine {reqstr : Bytes} (h : (getOneLine reqstr).1 ≠ []) :
    (getOneLine reqstr).2.length < reqstr.length := by
  unfold getOneLine at h ⊢
  cases hfind : findSub? sep reqstr with
  | none => simp [hfind] at h
  | some pos =>
      have hle := findSub?_le hfind
      have hsep : sep.length = 2 := by decide
      simp only [eraseFront, List.length_drop]
      omega

/-- Every line is shorter than what it was cut from, so a buffer needs no more
rounds than it has bytes. -/
theorem readHeader_enough {n m : Nat} {reqstr : Bytes} (hn : reqstr.length < n)
    (hm : reqstr.length < m) (req : HttpRequest) :
    readHeader n req reqstr = readHeader m req reqstr := by
  induction n generalizing m req reqstr with
  | zero => omega
  | succ n ih =>
      obtain ⟨m, rfl⟩ := Nat.exists_eq_add_of_le' (Nat.lt_of_le_of_lt (Nat.zero_le _) hm)
      rw [readHeader, readHeader]
      by_cases hline : (getOneLine reqstr).1 = []
      · simp [hline]
      · have hlt := length_getOneLine hline
        simp only [if_neg hline]
        split
        · rfl
        · exact ih (by omega) (by omega) _

end HttpRequest

end LinuxAdvance.Http
