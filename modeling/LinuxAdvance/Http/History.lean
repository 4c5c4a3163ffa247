import LinuxAdvance.Foundation.Footprint
import LinuxAdvance.Foundation.Triple
import LinuxAdvance.Http.Answering
import LinuxAdvance.Http.Configuration

/-!
# What requests leave behind

Every lookup with `operator[]` may add an element.  A request changes the state
by such lookups, by what it reads and by making sessions, and by nothing else;
the two tables of texts only gain elements that say what a missing key says.
-/

namespace LinuxAdvance.Http

open LinuxAdvance.Foundation
open LinuxAdvance.Cxx
open Relation

namespace Server

inductive Change : Server → Server → Prop
  | mimeType (s : Server) (suffix : Bytes) :
      Change s { s with mimeType := (UnorderedMap.access s.mimeType suffix []).2 }
  | desc (s : Server) (code : Int32) :
      Change s { s with
        statusCodeToDesc := (UnorderedMap.access s.statusCodeToDesc code []).2 }
  | func (s : Server) (resource : Bytes) :
      Change s { s with funcs := (UnorderedMap.access s.funcs resource none).2 }
  | read (s : Server) (path : Bytes) : Change s { s with reads := s.reads ++ [path] }
  | number (s : Server) : Change s { s with number := s.number + 1 }
  | session (s : Server) (session : Session) (id : Bytes) :
      Change s (s.openSession session id)

open Proc (Within)

theorem within_mimeTypeOf (suffix : Bytes) : Within Change (mimeTypeOf suffix) :=
  fun s => .single (.mimeType s suffix)

theorem within_addStatus (resp : HttpResponse) (code : Int32) :
    Within Change (addStatus resp code) :=
  Within.bind (fun s => .single (.desc s code)) fun _ => .pure _

theorem within_readFileRequest (call : Call) (path : Bytes) (size : Int32) :
    Within Change (readFileRequest call path size) := by
  refine (Within.modify fun s => Change.read s path).bind fun _ => ?_
  split
  · exact .pure _
  · exact (Within.ofExcept _).bind fun _ => .pure _

theorem within_serveFile (call : Call) (req : HttpRequest) :
    Within Change (serveFile call req) := by
  refine (within_readFileRequest call req.path 0).bind fun _ => ?_
  dsimp only
  split
  · refine (within_addStatus _ _).bind fun _ => ?_
    refine (within_readFileRequest call _ _).bind fun _ => ?_
    exact (within_mimeTypeOf _).bind fun _ => .pure _
  · refine (within_addStatus _ _).bind fun _ => ?_
    exact (within_mimeTypeOf _).bind fun _ => .pure _

theorem within_logActivity (demo : Demo) (sessionid : Bytes) :
    Within Change (logActivity demo sessionid) := by
  cases demo with
  | http => exact .pure _
  | cookieSession =>
      rw [logActivity]
      split
      · exact .pure _
      · refine Within.get.bind fun s => ?_
        split
        · exact .pure _
        · split
          · exact .raise _
          · exact .pure _

theorem within_serveResource (demo : Demo) (call : Call) (req : HttpRequest) :
    Within Change (serveResource demo call req) := by
  refine (within_logActivity demo _).bind fun _ => ?_
  split
  · refine (within_addStatus _ _).bind fun _ => ?_
    exact (within_mimeTypeOf _).bind fun _ => .pure _
  · split
    · exact .pure _
    · exact within_serveFile call req

def randnum (call : Call) : UInt32 := UInt32.ofInt (call.rand.toInt + call.now)

def sessionId (call : Call) : Bytes := natToString (randnum call).toNat

theorem within_nextNumber : Within Change nextNumber := by
  refine Within.get.bind fun s => ?_
  split
  · exact .raise _
  · exact (Within.modify Change.number).bind fun _ => .pure _

theorem within_runHandler (demo : Demo) (call : Call) (req : HttpRequest) :
    Within Change (runHandler demo call req) := by
  refine Within.bind (fun s => .single (.func s req.path)) fun f => ?_
  cases f with
  | none => exact .raise _
  | some f =>
      dsimp only
      split
      · refine within_nextNumber.bind fun number => ?_
        exact fun s => .single (.session s _ (sessionId call))
      · exact .pure _

theorem within_handlerHttpService (demo : Demo) (call : Call) (request : Bytes) :
    Within Change (handlerHttpService demo call request) := by
  refine Within.bind ?_ fun _ => .pure _
  rw [respond]
  split
  · exact within_runHandler demo call _
  · exact within_serveResource demo call _

theorem SessionsHeld.change {s s' : Server} (h : Change s s') (hs : SessionsHeld s) :
    SessionsHeld s' := by
  cases h with
  | session session id => exact hs.openSession session id
  | mimeType suffix => exact hs
  | desc code => exact hs
  | func resource => exact hs
  | read path => exact hs
  | number => exact hs

/-! ## Histories -/

def Served (demo : Demo) (s s' : Server) : Prop :=
  ∃ call request response,
    (handlerHttpService demo call request).run s = .done response s'

theorem served_of_isDone {demo : Demo} {call : Call} {request : Bytes} {s : Server}
    (h : ((handlerHttpService demo call request).run s).isDone = true) :
    Served demo s ((handlerHttpService demo call request).run s).state := by
  obtain ⟨response, hrun⟩ := Outcome.exists_done_of_isDone h
  exact ⟨call, request, response, hrun⟩

theorem Served.changes {demo : Demo} {s s' : Server} (h : Served demo s s') :
    ReflTransGen Change s s' := by
  obtain ⟨call, request, response, hrun⟩ := h
  have hwithin := within_handlerHttpService demo call request s
  rwa [hrun] at hwithin

theorem keeps_history {I : Server → Prop} (hI : ∀ s s', Change s s' → I s → I s')
    {demo : Demo} {s s' : Server} (h : ReflTransGen (Served demo) s s') (hs : I s) :
    I s' :=
  keeps_of_step (I := I) (fun _ _ hserved hs => keeps_of_step hI hserved.changes hs) h hs

/-- The states of a service with any handlers: from the constructor, by
`AddHandler` and by requests that returned. -/
inductive Arises (demo : Demo) : Server → Prop
  | construct {conf : Conf} {s : Server} (hrun : construct conf = .ok s) :
      Arises demo s
  | addHandler {s : Server} (hs : Arises demo s) (functionname : Bytes)
      (f : Option Handler) : Arises demo (s.addHandler functionname f)
  | request {s s' : Server} (hs : Arises demo s) (hserved : Served demo s s') :
      Arises demo s'

theorem Arises.sessionsHeld {demo : Demo} {s : Server} (h : Arises demo s) :
    SessionsHeld s := by
  induction h with
  | construct hrun => exact (inv_construct hrun).sessions
  | addHandler hs functionname f ih => exact ih
  | request hs hserved ih =>
      exact keeps_of_step (I := SessionsHeld) (fun _ _ => SessionsHeld.change)
        hserved.changes ih

/-! ## The tables of texts -/

theorem getD_access {κ υ : Type} [DecidableEq κ] (m : UnorderedMap κ υ) (k k' : κ)
    (init : υ) :
    ((UnorderedMap.access m k init).2.lookup k').getD init = (m.lookup k').getD init := by
  unfold UnorderedMap.access
  cases h : m.lookup k with
  | some v => rfl
  | none =>
      by_cases hk : k' = k
      · subst hk
        simp [h]
      · rw [AList.lookup_insert_ne hk]

theorem fst_access {κ υ : Type} [DecidableEq κ] (m : UnorderedMap κ υ) (k : κ)
    (init : υ) : (UnorderedMap.access m k init).1 = (m.lookup k).getD init := by
  unfold UnorderedMap.access
  cases m.lookup k with
  | some v => rfl
  | none => rfl

/-- The two servers say the same for every key, where a key that is missing says
what a new element says. -/
structure SameTexts (s t : Server) : Prop where
  mimeType : ∀ suffix,
    (s.mimeType.lookup suffix).getD [] = (t.mimeType.lookup suffix).getD []
  desc : ∀ code,
    (s.statusCodeToDesc.lookup code).getD [] = (t.statusCodeToDesc.lookup code).getD []

theorem SameTexts.change {s s' t : Server} (h : Change s s') (hs : SameTexts s t) :
    SameTexts s' t := by
  cases h with
  | mimeType suffix =>
      exact ⟨fun k => (getD_access _ _ k _).trans (hs.mimeType k), hs.desc⟩
  | desc code => exact ⟨hs.mimeType, fun k => (getD_access _ _ k _).trans (hs.desc k)⟩
  | func resource => exact ⟨hs.mimeType, hs.desc⟩
  | read path => exact ⟨hs.mimeType, hs.desc⟩
  | number => exact ⟨hs.mimeType, hs.desc⟩
  | session session id => exact ⟨hs.mimeType, hs.desc⟩

theorem SameTexts.symm {s t : Server} (h : SameTexts s t) : SameTexts t s :=
  ⟨fun k => (h.mimeType k).symm, fun k => (h.desc k).symm⟩

theorem Says.change {conf : Conf} {s s' : Server} (h : Change s s') (hs : Says conf s) :
    Says conf s' := by
  have hsame : SameTexts s' s := SameTexts.change h ⟨fun _ => rfl, fun _ => rfl⟩
  exact ⟨fun suffix => (hsame.mimeType suffix).trans (hs.mimeType suffix),
    fun code => (hsame.desc code).trans (hs.desc code)⟩

theorem Arises.says {demo : Demo} {s : Server} (h : Arises demo s) : ∃ conf, Says conf s := by
  induction h with
  | construct hrun => exact ⟨_, says_construct hrun⟩
  | addHandler hs functionname f ih =>
      obtain ⟨conf, hsays⟩ := ih
      exact ⟨conf, hsays.mimeType, hsays.desc⟩
  | request hs hserved ih =>
      obtain ⟨conf, hsays⟩ := ih
      exact ⟨conf, keeps_of_step (I := Says conf) (fun _ _ => Says.change) hserved.changes
        hsays⟩

/-! ## Two servers with the same texts -/

open Proc (Sim)

theorem sim_mimeTypeOf (suffix : Bytes) :
    Sim SameTexts (mimeTypeOf suffix) (mimeTypeOf suffix) := by
  intro s t h
  refine ⟨?_, ?_⟩
  · change (UnorderedMap.access s.mimeType suffix []).1 =
      (UnorderedMap.access t.mimeType suffix []).1
    rw [fst_access, fst_access]
    exact h.mimeType suffix
  · exact ((h.change (.mimeType s suffix)).symm.change (.mimeType t suffix)).symm

theorem sim_addStatus (resp : HttpResponse) (code : Int32) :
    Sim SameTexts (addStatus resp code) (addStatus resp code) := by
  refine Sim.bind (fun s t h => ⟨?_, ?_⟩) fun _ => .pure _
  · change (UnorderedMap.access s.statusCodeToDesc code []).1 =
      (UnorderedMap.access t.statusCodeToDesc code []).1
    rw [fst_access, fst_access]
    exact h.desc code
  · exact ((h.change (.desc s code)).symm.change (.desc t code)).symm

theorem sim_readFileRequest {call call' : Call} (hfiles : call.files = call'.files)
    (path : Bytes) (size : Int32) :
    Sim SameTexts (readFileRequest call path size)
      (readFileRequest call' path size) := by
  refine (Sim.modify fun s t h => ⟨h.mimeType, h.desc⟩).bind fun _ => ?_
  rw [hfiles]
  split
  · exact .pure _
  · exact (Sim.ofExcept _).bind fun _ => .pure _

theorem sim_serveFile {call call' : Call} (hfiles : call.files = call'.files)
    (req : HttpRequest) :
    Sim SameTexts (serveFile call req) (serveFile call' req) := by
  refine (sim_readFileRequest hfiles req.path 0).bind fun _ => ?_
  dsimp only
  split
  · refine (sim_addStatus _ _).bind fun _ => ?_
    refine (sim_readFileRequest hfiles _ _).bind fun _ => ?_
    exact (sim_mimeTypeOf _).bind fun _ => .pure _
  · refine (sim_addStatus _ _).bind fun _ => ?_
    exact (sim_mimeTypeOf _).bind fun _ => .pure _

theorem sim_serveResource {call call' : Call} (hfiles : call.files = call'.files)
    (req : HttpRequest) :
    Sim SameTexts (serveResource .http call req) (serveResource .http call' req) := by
  refine (Sim.pure _).bind fun _ => ?_
  split
  · refine (sim_addStatus _ _).bind fun _ => ?_
    exact (sim_mimeTypeOf _).bind fun _ => .pure _
  · split
    · exact .pure _
    · exact sim_serveFile hfiles req

/-! ## Responses -/

/-- The two texts are one status line, the same header lines in two orders, an
empty line and one body. -/
def SameButHeaderOrder (response response' : Bytes) : Prop :=
  ∃ statusLine headers headers' body, ¬ sep <:+: statusLine ∧
    (∀ line ∈ headers, line ≠ [] ∧ ¬ sep <:+: line) ∧ List.Perm headers headers' ∧
    response = render statusLine headers body ∧ response' = render statusLine headers' body

/-- The status is set, and no text that goes into a line ends it. -/
structure Tidy (resp : HttpResponse) : Prop where
  status : ∃ code, resp.statusCode = some code
  version : resp.version = httpVersion
  respHeader : resp.respHeader = []
  desc : ¬ sep <:+: resp.desc
  headers : ∀ k v, resp.headerskv.lookup k = some v → ¬ sep <:+: k ∧ ¬ sep <:+: v

theorem tidy_addStatusLine (code : Int32) {desc : Bytes} (hdesc : ¬ sep <:+: desc) :
    Tidy (({} : HttpResponse).addStatusLine code desc) where
  status := ⟨code, rfl⟩
  version := rfl
  respHeader := rfl
  desc := hdesc
  headers k v h := by simp [HttpResponse.addStatusLine] at h

theorem Tidy.addHeader {resp : HttpResponse} (h : Tidy resp) {k v : Bytes}
    (hk : ¬ sep <:+: k) (hv : ¬ sep <:+: v) : Tidy (resp.addHeader k v) where
  status := h.status
  version := h.version
  respHeader := h.respHeader
  desc := h.desc
  headers k' v' hlookup := by
    by_cases hkey : k' = k
    · subst hkey
      rw [HttpResponse.addHeader, AList.lookup_insert] at hlookup
      obtain rfl := Option.some.inj hlookup
      exact ⟨hk, hv⟩
    · rw [HttpResponse.addHeader, AList.lookup_insert_ne hkey] at hlookup
      exact h.headers k' v' hlookup

theorem Tidy.addText {resp : HttpResponse} (h : Tidy resp) (t : Bytes) :
    Tidy (resp.addText t) :=
  ⟨h.status, h.version, h.respHeader, h.desc, h.headers⟩

theorem serialize_sameButHeaderOrder {resp : HttpResponse} (h : Tidy resp)
    (junk junk' : Int32) (order order' : UnorderedMap.Order resp.headerskv) :
    SameButHeaderOrder (resp.serialize junk order).2 (resp.serialize junk' order').2 := by
  obtain ⟨code, hcode⟩ := h.status
  have hperm : order.val.Perm order'.val := order.property.trans order'.property.symm
  refine ⟨_, _, _, _, HttpResponse.not_sep_statusLine code h.desc, ?_,
    hperm.map HttpResponse.headerLine,
    HttpResponse.serialize_eq h.version hcode h.respHeader junk order,
    HttpResponse.serialize_eq h.version hcode h.respHeader junk' order'⟩
  intro line hline
  obtain ⟨e, he, rfl⟩ := List.mem_map.mp hline
  obtain ⟨hkey, hvalue⟩ := h.headers e.1 e.2 (HttpResponse.lookup_of_mem_order order he)
  exact ⟨by simp [HttpResponse.headerLine, reqHeaderSep_eq],
    HttpResponse.not_sep_headerLine hkey hvalue⟩

/-! ### What a resource is answered with -/

/-- From a server that says what the configuration says, `p` returns a tidy
response or throws. -/
def TidyWhenDone (conf : Conf) (p : Proc Fault Server HttpResponse) : Prop :=
  Proc.Triple (Says conf) p (fun resp _ => Tidy resp) (fun e _ => e ≠ none)

section Serve

variable {conf : Conf}

theorem addStatus_tidy (conf : Conf) (code : Int32) :
    Proc.Triple (Says conf) (addStatus {} code) (fun resp s => Tidy resp ∧ Says conf s)
      (fun e _ => e ≠ none) := by
  intro s hs
  refine ⟨tidy_addStatusLine code ?_, hs.change (.desc s code)⟩
  change ¬ sep <:+: (UnorderedMap.access s.statusCodeToDesc code []).1
  rw [fst_access, hs.desc]
  exact not_sep_descOf conf code

theorem mimeTypeOf_tidy (conf : Conf) (suffix : Bytes) :
    Proc.Triple (Says conf) (mimeTypeOf suffix)
      (fun mime s => ¬ sep <:+: mime ∧ Says conf s) (fun e _ => e ≠ none) := by
  intro s hs
  refine ⟨?_, hs.change (.mimeType s suffix)⟩
  change ¬ sep <:+: (UnorderedMap.access s.mimeType suffix []).1
  rw [fst_access, hs.mimeType]
  exact not_sep_mimeOf conf suffix

theorem readFileRequest_ends (conf : Conf) (call : Call) (path : Bytes) (size : Int32) :
    Proc.Triple (Says conf) (readFileRequest call path size) (fun _ s => Says conf s)
      (fun e _ => e ≠ none) := by
  intro s hs
  rcases readFileRequest_cases call path size s with ⟨-, _, _, hrun, -⟩ | ⟨-, -, hrun⟩
  · rw [hrun]
    exact hs.change (.read s path)
  · rw [hrun]
    exact Option.some_ne_none _

theorem not_sep_intToString (i : Int) : ¬ sep <:+: intToString i := by
  apply not_sep_of_notMem
  intro hmem
  rcases mem_intToString hmem with h | h <;> revert h <;> decide

/-- The last steps of every branch: the type is looked up, and what follows adds
it to the response. -/
theorem withMime_tidy {resp : HttpResponse} (hresp : Tidy resp) (suffix : Bytes)
    {f : HttpResponse → HttpResponse} (hf : ∀ resp, Tidy resp → Tidy (f resp)) :
    Proc.Triple (Says conf) (do
      let mime ← mimeTypeOf suffix
      return f (resp.addHeader (text "Content-Type") mime))
      (fun resp _ => Tidy resp) (fun e _ => e ≠ none) :=
  (mimeTypeOf_tidy conf suffix).bind fun _ => .pure fun _ h =>
    hf _ (hresp.addHeader (by decide) h.1)

theorem serveFile_tidy (conf : Conf) (call : Call) (req : HttpRequest) :
    TidyWhenDone conf (serveFile call req) := by
  have hlength {resp : HttpResponse} (hresp : Tidy resp) (size : Int32) :
      Tidy (resp.addHeader (text "Content-Length") (intToString size.toInt)) :=
    hresp.addHeader (by decide) (not_sep_intToString _)
  refine (readFileRequest_ends conf call req.path 0).bind fun r => ?_
  dsimp only
  split
  · refine (addStatus_tidy conf 404).bind fun resp s hs => ?_
    refine (readFileRequest_ends conf call _ r.2).bind (fun page => ?_) s hs.2
    exact withMime_tidy (hlength hs.1 page.2) _ fun _ h => h.addText _
  · refine (addStatus_tidy conf 200).bind fun resp s hs => ?_
    exact withMime_tidy (hlength hs.1 r.2) _ (fun _ h => h.addText _) s hs.2

theorem serveResource_tidy (conf : Conf) (call : Call) {req : HttpRequest}
    (hpath : req.path ≠ errorResource) :
    TidyWhenDone conf (serveResource .http call req) := by
  intro s hs
  have hlog : (logActivity .http req.sessionid).run s = .done () s := rfl
  rw [serveResource, Proc.run_bind_done hlog]
  split
  · refine ((addStatus_tidy conf _).bind fun resp s hs => ?_) s hs
    exact withMime_tidy hs.1 req.suffix (fun _ h => h.addHeader (by decide) (by decide)) s hs.2
  · exact serveFile_tidy conf call req s hs

end Serve

def SameAnswer (o o' : Outcome Fault Server Bytes) : Prop :=
  (∃ response s response' s', o = .done response s ∧ o' = .done response' s' ∧
    SameButHeaderOrder response response') ∨
  ∃ e s s', o = .raised e s ∧ o' = .raised e s'

/-- `fresh` is a service that was constructed and configured, `s` what a history of
requests has made of it. -/
theorem history_independent {fresh s : Server} (hfresh : Arises .http fresh)
    (hhistory : ReflTransGen (Served .http) fresh s) {call call' : Call}
    (hfiles : call.files = call'.files) {request : Bytes}
    (hexec : (parsed .http request).isExec = false)
    (hpath : (parsed .http request).path ≠ errorResource) :
    SameAnswer ((handlerHttpService .http call request).run s)
      ((handlerHttpService .http call' request).run fresh) := by
  have htexts : SameTexts s fresh :=
    keeps_history (I := (SameTexts · fresh)) (fun _ _ => SameTexts.change) hhistory
      ⟨fun _ => rfl, fun _ => rfl⟩
  have hsame := sim_serveResource hfiles (parsed .http request) s fresh htexts
  obtain ⟨conf, hsays⟩ := hfresh.says
  have htidy := serveResource_tidy conf call' hpath fresh hsays
  have hrespond (call : Call) : respond .http call request =
      serveResource .http call (parsed .http request) := by
    rw [respond, if_neg (by simp [hexec])]
  rw [handlerHttpService, handlerHttpService, hrespond, hrespond, Proc.run_bind,
    Proc.run_bind]
  cases hrun : (serveResource .http call (parsed .http request)).run s <;>
    cases hrun' : (serveResource .http call' (parsed .http request)).run fresh <;>
    rw [hrun, hrun'] at hsame
  case done.done resp s₁ resp' t₁ =>
    obtain ⟨rfl, -⟩ := hsame
    rw [hrun'] at htidy
    exact .inl ⟨_, _, _, _, rfl, rfl, serialize_sameButHeaderOrder htidy _ _ _ _⟩
  case raised.raised e s₁ e' t₁ =>
    obtain ⟨rfl, -⟩ := hsame
    exact .inr ⟨e, s₁, t₁, rfl, rfl⟩
  case blocked.blocked s₁ t₁ =>
    rw [hrun'] at htidy
    exact absurd rfl htidy
  all_goals exact hsame.elim

theorem arises_mainServer (demo : Demo) : Arises demo mainServer :=
  (Arises.construct (show construct ⟨none, none⟩ = _ from rfl)).addHandler (text "login")
    (some login)

def missing : Bytes := text "GET /a.png HTTP/1.0\r\n\r\n"

/-- The server has looked up the type of the missing page and the text of 404. -/
theorem history_independent_missing :
    SameAnswer
      ((handlerHttpService .http emptyCall missing).run
        ((handlerHttpService .http emptyCall missing).run mainServer).state)
      ((handlerHttpService .http emptyCall missing).run mainServer) :=
  history_independent (arises_mainServer .http) (.single (served_of_isDone (by decide))) rfl
    (by decide) (by decide)

end Server

end LinuxAdvance.Http
