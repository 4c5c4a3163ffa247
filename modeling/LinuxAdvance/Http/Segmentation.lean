import LinuxAdvance.Http.Header
import LinuxAdvance.Http.History
import LinuxAdvance.System.Socket

/-!
# A request in several pieces

`HandlerService` calls `Recv` once and takes what it delivers for the request.
The rest of a request that comes in several pieces is never read, so the
response is the one to the first piece.
-/

namespace LinuxAdvance.Http

open LinuxAdvance.Foundation
open LinuxAdvance.Cxx
open LinuxAdvance.System
open Relation

namespace Server

/-- `TcpServer::HandlerService`: what it sends, if it sends something. -/
def handlerService (demo : Demo) (call : Call) :
    List RecvResult → Proc Fault Server (Option Bytes)
  | [] => Proc.block
  | .data chunk :: _ => do
      let response ← handlerHttpService demo call (ofCString chunk.bytes)
      return some response
  | _ :: _ => return none

/-! ## What of a request decides the response -/

def suffixOf (path : Bytes) : Bytes :=
  match rfindSub? reqPathSuffixSep path with
  | none => []
  | some pos => path.drop pos

theorem parseReqLine_suffix {req : HttpRequest} (hpath : req.path = wwwroot)
    (hsuffix : req.suffix = []) :
    (HttpRequest.parseReqLine req).1.suffix =
      suffixOf (HttpRequest.parseReqLine req).1.path := by
  have hroot : suffixOf wwwroot = [] := by decide
  have hsplit (req : HttpRequest) :
      (HttpRequest.appendPath (HttpRequest.splitArgs req)).suffix = req.suffix := by
    unfold HttpRequest.appendPath HttpRequest.splitArgs
    split
    · split <;> rfl
    · rfl
  rw [HttpRequest.parseReqLine]
  split
  · rw [hpath, hsuffix, hroot]
  · dsimp only
    split
    · next hnone =>
        rw [suffixOf, hnone, hsplit]
        exact hsuffix
    · next pos hpos =>
        rw [suffixOf, hpos]

theorem suffix_parsed (demo : Demo) (request : Bytes) :
    (parsed demo request).suffix = suffixOf (parsed demo request).path := by
  obtain ⟨cookies, heq⟩ := parsed_eq demo request
  rw [heq]
  exact parseReqLine_suffix rfl rfl

/-- `AddHandler` can register a handler for the path. -/
def Registrable (path : Bytes) : Prop := ∃ name, path = wwwroot ++ pathSep ++ name

/-- With arguments the handler sees what the getters say, and there is none for
either request if both paths are out of reach of `AddHandler`; without arguments
the path alone decides. -/
def SameService (req req' : HttpRequest) : Prop :=
  if req.isExec = true ∨ req'.isExec = true then
    req.getters = req'.getters ∨ req.isExec = true ∧ req'.isExec = true ∧
      ¬ Registrable req.path ∧ ¬ Registrable req'.path
  else req.path = req'.path

def Returns (demo : Demo) (call : Call) (request : Bytes) (s : Server)
    (response : Bytes) : Prop :=
  ∃ s', (handlerHttpService demo call request).run s = .done response s'

theorem returns_iff (demo : Demo) (call : Call) (request : Bytes) (s : Server)
    (response : Bytes) :
    Returns demo call request s response ↔
      ∃ resp s', (respond demo call request).run s = .done resp s' ∧
        response = (resp.serialize call.junk (call.order resp.headerskv)).2 := by
  constructor
  · rintro ⟨s', hrun⟩
    rw [handlerHttpService, Proc.run_bind_eq_done] at hrun
    obtain ⟨resp, s₁, hresp, hdone⟩ := hrun
    cases hdone
    exact ⟨resp, _, hresp, rfl⟩
  · rintro ⟨resp, s', hresp, rfl⟩
    refine ⟨s', ?_⟩
    rw [handlerHttpService, Proc.run_bind_done hresp]
    rfl

/-! ## The same service, the same response -/

def HandlersRegistrable (s : Server) : Prop :=
  ∀ path f, s.funcs.lookup path = some (some f) → Registrable path

theorem HandlersRegistrable.change {s s' : Server} (h : Change s s')
    (hs : HandlersRegistrable s) : HandlersRegistrable s' := by
  cases h with
  | func resource =>
      intro path f hlookup
      have hsame := getD_access s.funcs resource path none
      rw [hlookup] at hsame
      refine hs path f ?_
      cases hold : s.funcs.lookup path with
      | none => simp [hold] at hsame
      | some g => simpa [hold] using hsame.symm
  | mimeType suffix => exact hs
  | desc code => exact hs
  | read path => exact hs
  | number => exact hs
  | session session id => exact hs

theorem Arises.handlersRegistrable {demo : Demo} {s : Server} (h : Arises demo s) :
    HandlersRegistrable s := by
  induction h with
  | construct hrun =>
      intro path f hlookup
      unfold Server.construct at hrun
      split at hrun <;> cases hrun
      simp at hlookup
  | addHandler hs functionname g ih =>
      intro path f hlookup
      by_cases hpath : path = wwwroot ++ pathSep ++ functionname
      · exact ⟨functionname, hpath⟩
      · rw [Server.addHandler, AList.lookup_insert_ne hpath] at hlookup
        exact ih path f hlookup
  | request hs hserved ih =>
      exact keeps_of_step (I := HandlersRegistrable) (fun _ _ => HandlersRegistrable.change)
        hserved.changes ih

theorem runHandler_unregistered (demo : Demo) (call : Call) {req : HttpRequest}
    {s : Server} (h : ∀ f, s.funcs.lookup req.path ≠ some (some f)) :
    ∃ s', (runHandler demo call req).run s = .raised .badFunctionCall s' := by
  rw [runHandler]
  cases hf : s.funcs.lookup req.path with
  | none =>
      obtain ⟨s', hrun, -⟩ := funcOf_run_none hf
      exact ⟨s', Proc.run_bind_done hrun _⟩
  | some f =>
      cases f with
      | none => exact ⟨s, Proc.run_bind_done (funcOf_run hf) _⟩
      | some f => exact absurd hf (h f)

theorem not_returns_unregistered {demo : Demo} {call : Call} {request : Bytes}
    {s : Server} (hexec : (parsed demo request).isExec = true)
    (h : ∀ f, s.funcs.lookup (parsed demo request).path ≠ some (some f))
    (response : Bytes) : ¬ Returns demo call request s response := by
  obtain ⟨s₁, hraised⟩ := runHandler_unregistered demo call h
  rw [returns_iff, respond, if_pos hexec, hraised]
  rintro ⟨resp, s', hdone, -⟩
  cases hdone

theorem isExec_congr {req req' : HttpRequest} (h : req.getters = req'.getters) :
    req.isExec = req'.isExec := by
  have hargs : req.args = req'.args := congrArg HttpRequest.Getters.args h
  have htext : req.reqText = req'.reqText := congrArg HttpRequest.Getters.reqText h
  rw [HttpRequest.isExec, HttpRequest.isExec, hargs, htext]

theorem runHandler_congr (demo : Demo) (call : Call) {req req' : HttpRequest}
    (h : req.getters = req'.getters) :
    runHandler demo call req = runHandler demo call req' := by
  have hpath : req.path = req'.path := congrArg HttpRequest.Getters.path h
  have hid : req.sessionid = req'.sessionid := congrArg HttpRequest.Getters.sessionId h
  rw [runHandler, runHandler, hpath, hid, h]

theorem serveResource_congr {demo : Demo} {s : Server} (h : SessionsHeld s)
    (call : Call) {request request' : Bytes}
    (hpath : (parsed demo request).path = (parsed demo request').path) :
    (serveResource demo call (parsed demo request)).run s =
      (serveResource demo call (parsed demo request')).run s := by
  have hsuffix : (parsed demo request).suffix = (parsed demo request').suffix := by
    rw [suffix_parsed, suffix_parsed, hpath]
  rw [serveResource, serveResource, Proc.run_bind_done (logActivity_run h demo _),
    Proc.run_bind_done (logActivity_run h demo _), serveFile, serveFile, hpath, hsuffix]

theorem returns_congr {demo : Demo} {s : Server} (h : Arises demo s) (call : Call)
    {request request' : Bytes}
    (hsame : SameService (parsed demo request) (parsed demo request'))
    (response : Bytes) :
    Returns demo call request s response ↔ Returns demo call request' s response := by
  rw [SameService] at hsame
  split at hsame
  · next hany =>
    rcases hsame with heq | ⟨hexec, hexec', hpath, hpath'⟩
    · have hexec' := isExec_congr heq
      have hexec : (parsed demo request).isExec = true := by
        rwa [← hexec', or_self] at hany
      rw [returns_iff, returns_iff, respond, respond, if_pos hexec,
        if_pos (hexec' ▸ hexec), runHandler_congr demo call heq]
    · exact iff_of_false
        (not_returns_unregistered hexec
          (fun f hf => hpath (h.handlersRegistrable _ f hf)) response)
        (not_returns_unregistered hexec'
          (fun f hf => hpath' (h.handlersRegistrable _ f hf)) response)
  · next hexec =>
      rw [not_or] at hexec
      rw [returns_iff, returns_iff, respond, respond, if_neg hexec.1, if_neg hexec.2,
        serveResource_congr h.sessionsHeld call hsame]

/-! ## The path of a request without NUL -/

theorem notMem_getOneLine {reqstr : Bytes} (h : (0 : UInt8) ∉ reqstr) :
    (0 : UInt8) ∉ (getOneLine reqstr).1 := by
  unfold getOneLine
  split
  · simp
  · dsimp only
    split
    · decide
    · exact fun hmem => h (List.mem_of_mem_take hmem)

theorem notMem_extract {stream s : Bytes} (hstream : (0 : UInt8) ∉ stream)
    (hs : (0 : UInt8) ∉ s) :
    (0 : UInt8) ∉ (extract stream s).1 ∧ (0 : UInt8) ∉ (extract stream s).2 := by
  unfold extract
  split
  · exact ⟨hs, by simp⟩
  · next b rest hdrop =>
      have hrest : (0 : UInt8) ∉ b :: rest := fun hmem =>
        hstream ((List.dropWhile_sublist isSpace).subset (hdrop ▸ hmem))
      refine ⟨fun hmem => hrest ?_, fun hmem => hrest ?_⟩
      · exact (List.takeWhile_sublist (!isSpace ·)).subset hmem
      · exact (List.dropWhile_sublist (!isSpace ·)).subset hmem

theorem notMem_appendPath {req : HttpRequest} (hpath : (0 : UInt8) ∉ req.path)
    (huri : (0 : UInt8) ∉ req.uri) :
    (0 : UInt8) ∉ (HttpRequest.appendPath (HttpRequest.splitArgs req)).path := by
  have hhome : (0 : UInt8) ∉ homepage := by decide
  have hsplit : (HttpRequest.splitArgs req).path = req.path ∧
      (0 : UInt8) ∉ (HttpRequest.splitArgs req).uri := by
    unfold HttpRequest.splitArgs
    split
    · split
      · exact ⟨rfl, fun hmem => huri (List.mem_of_mem_take hmem)⟩
      · exact ⟨rfl, huri⟩
    · exact ⟨rfl, huri⟩
  unfold HttpRequest.appendPath
  rw [hsplit.1]
  dsimp only
  split
  · simp [hpath, hsplit.2, hhome]
  · simp [hpath, hsplit.2]

theorem notMem_parseReqLine {req : HttpRequest} (hpath : (0 : UInt8) ∉ req.path)
    (hline : (0 : UInt8) ∉ req.reqLine) (hmethod : (0 : UInt8) ∉ req.reqMethod)
    (huri : (0 : UInt8) ∉ req.uri) :
    (0 : UInt8) ∉ (HttpRequest.parseReqLine req).1.path := by
  rw [HttpRequest.parseReqLine]
  split
  · exact hpath
  · have hextract := notMem_extract hline hmethod
    have huri' := (notMem_extract hextract.2 huri).1
    dsimp only
    split
    · exact notMem_appendPath (by exact hpath) (by exact huri')
    · exact notMem_appendPath (by exact hpath) (by exact huri')

theorem notMem_path (demo : Demo) {request : Bytes} (h : (0 : UInt8) ∉ request) :
    (0 : UInt8) ∉ (parsed demo request).path := by
  have hroot : (0 : UInt8) ∉ wwwroot := by decide
  obtain ⟨cookies, heq⟩ := parsed_eq demo request
  rw [heq]
  exact notMem_parseReqLine hroot (notMem_getOneLine h) (by simp) (by simp)

/-! ## Another service, another response

The first digit of the status tells the responses apart.
-/

def plainServer : Server := { mimeType := ∅, statusCodeToDesc := ∅ }

theorem arises_plainServer (demo : Demo) : Arises demo plainServer :=
  .construct (show construct ⟨none, none⟩ = _ from rfl)

def callWith (files : Bytes → Option File) : Call := { emptyCall with files }

def firstDigit (code : Int32) : Option UInt8 := (intToString code.toInt).head?

theorem firstDigit_serialize {resp : HttpResponse} (hversion : resp.version = httpVersion)
    (junk : Int32) (order : UnorderedMap.Order resp.headerskv) :
    (resp.serialize junk order).2[9]? = firstDigit (resp.statusValue junk) := by
  have hdigits : intToString (resp.statusValue junk).toInt ≠ [] := by
    cases (resp.statusValue junk).toInt with
    | ofNat n => exact natToString_ne_nil n
    | negSucc n => simp [intToString]
  obtain ⟨d, ds, heq⟩ := List.exists_cons_of_ne_nil hdigits
  have hlen : (httpVersion ++ space).length = 9 := by decide
  rw [firstDigit, HttpResponse.serialize, hversion, heq]
  simp only [List.append_assoc, List.cons_append, List.head?_cons]
  rw [← List.append_assoc httpVersion, List.getElem?_append_right (by omega), hlen]
  rfl

def ReturnsDigit (demo : Demo) (call : Call) (request : Bytes) (s : Server)
    (digit : Option UInt8) : Prop :=
  ∃ response, Returns demo call request s response ∧ response[9]? = digit

theorem ReturnsDigit.of_done {demo : Demo} {call : Call} {request : Bytes}
    {s s' : Server} {resp : HttpResponse}
    (hrun : (respond demo call request).run s = .done resp s')
    (hversion : resp.version = httpVersion) :
    ReturnsDigit demo call request s (firstDigit (resp.statusValue call.junk)) :=
  ⟨_, (returns_iff ..).mpr ⟨resp, s', hrun, rfl⟩, firstDigit_serialize hversion _ _⟩

theorem ReturnsDigit.unique {demo : Demo} {call : Call} {request request' : Bytes}
    {s : Server} {digit digit' : Option UInt8}
    (hsame : ∀ response, Returns demo call request s response ↔
      Returns demo call request' s response)
    (h : ReturnsDigit demo call request s digit)
    (h' : ReturnsDigit demo call request' s digit') : digit = digit' := by
  obtain ⟨response, hreturns, rfl⟩ := h
  obtain ⟨response', ⟨s', hrun'⟩, rfl⟩ := h'
  obtain ⟨s₁, hrun⟩ := (hsame response).mp hreturns
  cases hrun.symm.trans hrun'
  rfl

def resourceStatus (demo : Demo) (files : Bytes → Option File) (path : Bytes) : Int32 :=
  if path = redirResource then redirStatus demo
  else if path = errorResource then 0
  else if (callWith files).Blank path then 404 else 200

theorem run_serveFile {files : Bytes → Option File}
    (hfiles : ∀ path, (callWith files).Readable path) (req : HttpRequest) (s : Server) :
    ∃ resp s', (serveFile (callWith files) req).run s = .done resp s' ∧
      resp.version = httpVersion ∧ resp.statusCode =
        some (if (callWith files).Blank req.path then 404 else 200) := by
  have hread (path : Bytes) (size : Int32) (s : Server) : ∃ content n,
      (readFileRequest (callWith files) path size).run s =
        .done (content, n) { s with reads := s.reads ++ [path] } ∧
      (content = [] ↔ (callWith files).Blank path) := by
    rcases readFileRequest_cases (callWith files) path size s with ⟨-, h⟩ | ⟨h, -, -⟩
    · exact h
    · exact absurd (hfiles path) h
  obtain ⟨content, n, hrun, hblank⟩ := hread req.path 0 s
  rw [serveFile, Proc.run_bind_done hrun]
  dsimp only
  by_cases hempty : content = []
  · obtain ⟨desc, s₁, hstatus, -, -⟩ :=
      addStatus_run {} 404 { s with reads := s.reads ++ [req.path] }
    obtain ⟨text404, m, hrun', -⟩ := hread (wwwroot ++ pathSep ++ errorpage) n s₁
    rw [if_pos hempty, Proc.run_bind_done hstatus, Proc.run_bind_done hrun',
      if_pos (hblank.mp hempty)]
    exact ⟨_, _, rfl, rfl, rfl⟩
  · rw [if_neg hempty, if_neg fun h => hempty (hblank.mpr h)]
    exact ⟨_, _, rfl, rfl, rfl⟩

theorem returnsDigit_resource {demo : Demo} {s : Server} (hs : SessionsHeld s)
    {files : Bytes → Option File} (hfiles : ∀ path, (callWith files).Readable path)
    {request : Bytes} (hexec : ¬ (parsed demo request).isExec = true) :
    ReturnsDigit demo (callWith files) request s
      (firstDigit (resourceStatus demo files (parsed demo request).path)) := by
  have hrespond : (respond demo (callWith files) request).run s =
      (serveResource demo (callWith files) (parsed demo request)).run s := by
    rw [respond, if_neg hexec]
  rw [serveResource, Proc.run_bind_done (logActivity_run hs demo _)] at hrespond
  unfold resourceStatus
  by_cases hredir : (parsed demo request).path = redirResource
  · rw [if_pos hredir] at hrespond ⊢
    exact ReturnsDigit.of_done hrespond rfl
  · rw [if_neg hredir] at hrespond ⊢
    by_cases herror : (parsed demo request).path = errorResource
    · rw [if_pos herror] at hrespond ⊢
      exact ReturnsDigit.of_done hrespond rfl
    · rw [if_neg herror] at hrespond ⊢
      obtain ⟨resp, s', hrun, hversion, hcode⟩ := run_serveFile hfiles (parsed demo request) s
      have hdigit := ReturnsDigit.of_done (hrespond.trans hrun) hversion
      rwa [HttpResponse.statusValue, hcode] at hdigit

def serverWith (name : Bytes) (f : Handler) : Server :=
  plainServer.addHandler name (some f)

theorem arises_serverWith (demo : Demo) (name : Bytes) (f : Handler) :
    Arises demo (serverWith name f) :=
  (arises_plainServer demo).addHandler name (some f)

theorem returnsDigit_handler {demo : Demo} {request name : Bytes} {f : Handler}
    {code : Int32} (hexec : (parsed demo request).isExec = true)
    (hpath : (parsed demo request).path = wwwroot ++ pathSep ++ name)
    (hf : f 0 (parsed demo request).getters = ({} : HttpResponse).addStatusLine code []) :
    ReturnsDigit demo emptyCall request (serverWith name f) (firstDigit code) := by
  have hlookup : (serverWith name f).funcs.lookup (parsed demo request).path =
      some (some f) := by
    rw [hpath, serverWith, addHandler, AList.lookup_insert]
  have hrun : ∃ resp s', (respond demo emptyCall request).run (serverWith name f) =
      .done resp s' ∧ resp.version = httpVersion ∧ resp.statusCode = some code := by
    rw [respond, if_pos hexec, runHandler, Proc.run_bind_done (funcOf_run hlookup)]
    dsimp only
    rw [show emptyCall.outside = 0 from rfl, hf]
    split
    · exact ⟨_, _, rfl, rfl, rfl⟩
    · exact ⟨_, _, rfl, rfl, rfl⟩
  obtain ⟨resp, s', hdone, hversion, hcode⟩ := hrun
  have hdigit := ReturnsDigit.of_done hdone hversion
  rwa [HttpResponse.statusValue, hcode] at hdigit

/-- The two requests are answered alike by every service in every environment. -/
def SameResponses (demo : Demo) (request request' : Bytes) : Prop :=
  ∀ s, Arises demo s → ∀ call response,
    Returns demo call request s response ↔ Returns demo call request' s response

theorem SameResponses.symm {demo : Demo} {request request' : Bytes}
    (h : SameResponses demo request request') : SameResponses demo request' request :=
  fun s hs call response => (h s hs call response).symm

section Distinguish

variable {demo : Demo} {request request' : Bytes}

theorem not_same_exec_resource (hexec : (parsed demo request).isExec = true)
    (hexec' : ¬ (parsed demo request').isExec = true) :
    ¬ SameResponses demo request request' := by
  intro h
  have hfiles : ∀ path, (callWith fun _ => none).Readable path := by
    simp [Call.Readable, callWith]
  by_cases hpath : Registrable (parsed demo request).path
  · obtain ⟨name, hpath⟩ := hpath
    let f : Handler := fun _ _ => ({} : HttpResponse).addStatusLine 200 []
    have hs := arises_serverWith demo name f
    have hdigit := (returnsDigit_handler (f := f) hexec hpath rfl).unique
      (h _ hs _) (returnsDigit_resource hs.sessionsHeld hfiles hexec')
    have hblank : (callWith fun _ => none).Blank (parsed demo request').path := by
      simp [Call.Blank, callWith]
    revert hdigit
    unfold resourceStatus
    rw [if_pos hblank]
    split
    · cases demo <;> decide
    · split <;> decide
  · have hs := arises_plainServer demo
    obtain ⟨response, hreturns, -⟩ := returnsDigit_resource hs.sessionsHeld hfiles hexec'
    exact not_returns_unregistered hexec
      (fun f hf => hpath (hs.handlersRegistrable _ f hf)) response
      ((h _ hs _ response).mpr hreturns)

theorem not_same_exec (hexec : (parsed demo request).isExec = true)
    (hexec' : (parsed demo request').isExec = true)
    (hne : (parsed demo request).getters ≠ (parsed demo request').getters)
    (hpath : Registrable (parsed demo request).path) :
    ¬ SameResponses demo request request' := by
  intro h
  obtain ⟨name, hpath⟩ := hpath
  let f : Handler := fun _ getters =>
    ({} : HttpResponse).addStatusLine
      (if getters = (parsed demo request).getters then 200 else 404) []
  have hs := arises_serverWith demo name f
  have hf : f 0 (parsed demo request).getters =
      ({} : HttpResponse).addStatusLine 200 [] := by
    simp [f]
  have hf' : f 0 (parsed demo request').getters =
      ({} : HttpResponse).addStatusLine 404 [] := by
    simp [f, hne.symm]
  have hdigit := returnsDigit_handler hexec hpath hf
  by_cases hpath' : (parsed demo request').path = wwwroot ++ pathSep ++ name
  · have hdigit' := returnsDigit_handler hexec' hpath' hf'
    exact absurd (hdigit.unique (h _ hs _) hdigit') (by decide)
  · obtain ⟨response, hreturns, -⟩ := hdigit
    refine not_returns_unregistered hexec' (fun g hg => ?_) response
      ((h _ hs _ response).mp hreturns)
    rw [serverWith, addHandler, AList.lookup_insert_ne hpath'] at hg
    simp [plainServer] at hg

theorem not_same_file (hnul : (0 : UInt8) ∉ request) (hnul' : (0 : UInt8) ∉ request')
    (hexec : ¬ (parsed demo request).isExec = true)
    (hexec' : ¬ (parsed demo request').isExec = true)
    (hne : (parsed demo request).path ≠ (parsed demo request').path)
    (hspecial : ¬ Special (parsed demo request)) :
    ¬ SameResponses demo request request' := by
  intro h
  -- the one file there is lies at the first path
  let files : Bytes → Option File := fun path =>
    if path = (parsed demo request).path then some ⟨1, [0]⟩ else none
  have hfiles : ∀ path, (callWith files).Readable path := by
    intro path file hfile
    change (if ofCString path = (parsed demo request).path then some ⟨1, [0]⟩ else none) =
      some file at hfile
    split at hfile
    · cases hfile
      decide
    · cases hfile
  have hfound : ¬ (callWith files).Blank (parsed demo request).path := by
    have hpath := ofCString_of_notMem (notMem_path demo hnul)
    intro hblank
    have hsize := hblank ⟨1, [0]⟩ (by simp [callWith, files, hpath])
    revert hsize
    decide
  have hmissing : (callWith files).Blank (parsed demo request').path := by
    have hpath := ofCString_of_notMem (notMem_path demo hnul')
    simp [Call.Blank, callWith, files, hpath, hne.symm]
  have hs := arises_plainServer demo
  have hdigit := (returnsDigit_resource hs.sessionsHeld hfiles hexec).unique (h _ hs _)
    (returnsDigit_resource hs.sessionsHeld hfiles hexec')
  rw [Special, not_or] at hspecial
  revert hdigit
  unfold resourceStatus
  rw [if_neg hspecial.1, if_neg hspecial.2, if_neg hfound, if_pos hmissing]
  split
  · cases demo <;> decide
  · split <;> decide

theorem not_same_resource (hnul : (0 : UInt8) ∉ request) (hnul' : (0 : UInt8) ∉ request')
    (hexec : ¬ (parsed demo request).isExec = true)
    (hexec' : ¬ (parsed demo request').isExec = true)
    (hne : (parsed demo request).path ≠ (parsed demo request').path) :
    ¬ SameResponses demo request request' := by
  by_cases hspecial : Special (parsed demo request)
  swap
  · exact not_same_file hnul hnul' hexec hexec' hne hspecial
  by_cases hspecial' : Special (parsed demo request')
  swap
  · exact fun h => not_same_file hnul' hnul hexec' hexec hne.symm hspecial' h.symm
  intro h
  have hfiles : ∀ path, (callWith fun _ => none).Readable path := by
    simp [Call.Readable, callWith]
  have hs := arises_plainServer demo
  have hdigit := (returnsDigit_resource hs.sessionsHeld hfiles hexec).unique (h _ hs _)
    (returnsDigit_resource hs.sessionsHeld hfiles hexec')
  have hother : redirResource ≠ errorResource := by decide
  have hdistinct : firstDigit (redirStatus demo) ≠ firstDigit 0 := by
    cases demo <;> decide
  rcases hspecial with hpath | hpath <;> rcases hspecial' with hpath' | hpath' <;>
    rw [hpath, hpath'] at hne hdigit
  · exact hne rfl
  · rw [resourceStatus, resourceStatus, if_pos rfl, if_neg hother.symm, if_pos rfl] at hdigit
    exact hdistinct hdigit
  · rw [resourceStatus, resourceStatus, if_neg hother.symm, if_pos rfl, if_pos rfl] at hdigit
    exact hdistinct hdigit.symm
  · exact hne rfl

theorem sameResponses_iff (hnul : (0 : UInt8) ∉ request) (hnul' : (0 : UInt8) ∉ request') :
    SameResponses demo request request' ↔
      SameService (parsed demo request) (parsed demo request') := by
  refine ⟨fun h => ?_, fun h s hs call response => returns_congr hs call h response⟩
  rw [SameService]
  by_cases hexec : (parsed demo request).isExec = true <;>
    by_cases hexec' : (parsed demo request').isExec = true
  · rw [if_pos (.inl hexec)]
    by_cases heq : (parsed demo request).getters = (parsed demo request').getters
    · exact .inl heq
    · exact .inr ⟨hexec, hexec', fun hpath => not_same_exec hexec hexec' heq hpath h,
        fun hpath => not_same_exec hexec' hexec (Ne.symm heq) hpath h.symm⟩
  · exact absurd h (not_same_exec_resource hexec hexec')
  · exact absurd h.symm (not_same_exec_resource hexec' hexec)
  · rw [if_neg (not_or.mpr ⟨hexec, hexec'⟩)]
    by_contra hne
    exact not_same_resource hnul hnul' hexec hexec' hne h

end Distinguish

/-! ## The connection -/

def Sends (demo : Demo) (call : Call) (chunks : List Chunk) (s : Server)
    (response : Bytes) : Prop :=
  ∃ s', (handlerService demo call (chunks.map .data)).run s = .done (some response) s'

theorem sends_iff (demo : Demo) (call : Call) {chunk : Chunk} (rest : List Chunk)
    (hnul : (0 : UInt8) ∉ chunk.bytes) (s : Server) (response : Bytes) :
    Sends demo call (chunk :: rest) s response ↔
      Returns demo call chunk.bytes s response := by
  rw [Sends, Returns, List.map_cons, handlerService, ofCString_of_notMem hnul]
  constructor
  · rintro ⟨s', hrun⟩
    rw [Proc.run_bind_eq_done] at hrun
    obtain ⟨response', s₁, hservice, hdone⟩ := hrun
    cases hdone
    exact ⟨_, hservice⟩
  · rintro ⟨s', hrun⟩
    exact ⟨s', Proc.run_bind_done hrun _⟩

theorem segmentation_iff (demo : Demo) (chunk : Chunk) (rest : List Chunk)
    {request : Bytes} (hrequest : request = chunk.bytes ++ rest.flatMap Chunk.bytes)
    (hnul : (0 : UInt8) ∉ request) :
    (∀ s, Arises demo s → ∀ call response,
      Sends demo call (chunk :: rest) s response ↔
        Returns demo call request s response) ↔
      SameService (parsed demo chunk.bytes) (parsed demo request) := by
  have hchunk : (0 : UInt8) ∉ chunk.bytes := fun hmem =>
    hnul (hrequest ▸ List.mem_append_left _ hmem)
  simp only [sends_iff demo _ rest hchunk]
  exact sameResponses_iff hchunk hnul

/-- A request whose body is as long as a header line says, and empty if none
does. -/
def Complete (request : Bytes) : Prop :=
  ∃ (lines : List Bytes) (body : Bytes), request = lines.flatMap (· ++ sep) ++ sep ++ body ∧
    (∀ line ∈ lines, line ≠ [] ∧ findSub? sep line = none) ∧
    (body = [] ∨ text "Content-Length: " ++ natToString body.length ∈ lines)

def hostStart : Chunk := ⟨text "GET /login?name=xp HTTP/1.0\r\nHo", by decide, by decide⟩

def hostRest : Chunk := ⟨text "st: x\r\n\r\n", by decide, by decide⟩

def hostRequest : Bytes := text "GET /login?name=xp HTTP/1.0\r\nHost: x\r\n\r\n"

def known : Handler := fun _ getters =>
  ({} : HttpResponse).addStatusLine (if getters.args = text "name=xp" then 200 else 404) []

/-- A cut in the header does not matter to a handler that looks at the arguments. -/
theorem segmentation_iff_header :
    ∃ response,
      Returns .http emptyCall hostRequest (serverWith (text "login") known) response ∧
      Sends .http emptyCall [hostStart, hostRest] (serverWith (text "login") known)
        response := by
  have hs := arises_serverWith .http (text "login") known
  have hexec : (parsed .http hostRequest).isExec = true := by decide
  have hlogin : ReturnsDigit .http emptyCall hostRequest (serverWith (text "login") known)
      (firstDigit 200) := returnsDigit_handler hexec (by decide) rfl
  obtain ⟨response, hreturns, -⟩ := hlogin
  have hrequest : hostRequest = hostStart.bytes ++ [hostRest].flatMap Chunk.bytes := by decide
  have hservice : SameService (parsed .http hostStart.bytes) (parsed .http hostRequest) := by
    rw [SameService, if_pos (.inr hexec)]
    exact .inl (by decide)
  have hsame := (segmentation_iff .http hostStart [hostRest] hrequest (by decide)).mpr hservice
  exact ⟨response, hreturns, (hsame _ hs _ response).mpr hreturns⟩

def loginHeader : Chunk :=
  ⟨text "POST /login HTTP/1.0\r\nContent-Length: 7\r\n\r\n", by decide, by decide⟩

def loginBody : Chunk := ⟨text "name=xp", by decide, by decide⟩

/-- The body comes in a second piece, and the handler is not called. -/
theorem body_lost :
    ¬ ∀ (demo : Demo) (chunks : List Chunk), Complete (chunks.flatMap Chunk.bytes) →
      (0 : UInt8) ∉ chunks.flatMap Chunk.bytes →
      ∀ s, Arises demo s → ∀ call response,
        Sends demo call chunks s response ↔
          Returns demo call (chunks.flatMap Chunk.bytes) s response := by
  intro h
  have hcomplete : Complete ([loginHeader, loginBody].flatMap Chunk.bytes) :=
    ⟨[text "POST /login HTTP/1.0", text "Content-Length: 7"], text "name=xp",
      by decide, by decide, .inr (by decide)⟩
  have hsame : SameResponses .cookieSession loginHeader.bytes
      ([loginHeader, loginBody].flatMap Chunk.bytes) := fun s hs call response =>
    (sends_iff .cookieSession call [loginBody] (by decide) s response).symm.trans
      (h .cookieSession [loginHeader, loginBody] hcomplete (by decide) s hs call response)
  exact not_same_exec_resource (by decide) (by decide) hsame.symm

end Server

end LinuxAdvance.Http
