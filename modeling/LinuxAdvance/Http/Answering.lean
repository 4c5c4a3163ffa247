import LinuxAdvance.Http.Service

/-!
# Which requests are answered

What a call of `HandlerHttpService` ends with, in every state that the service
can be in: with a response whose status was set, with an empty function, with a
size that is no size, or with a status nobody set.
-/

namespace LinuxAdvance.Http

open LinuxAdvance.Foundation
open LinuxAdvance.Cxx

def SetsStatus (f : Handler) : Prop :=
  ∀ outside getters, (f outside getters).statusCode ≠ none

namespace Server

/-- The states of a service: from the constructor, by registering handlers and
by requests that returned. -/
inductive Reachable (demo : Demo) : Server → Prop
  | construct {conf : Conf} {s : Server} (hrun : construct conf = .ok s) :
      Reachable demo s
  | addHandler {s : Server} (hs : Reachable demo s) (functionname : Bytes)
      {f : Handler} (hf : SetsStatus f) :
      Reachable demo (s.addHandler functionname (some f))
  | request {s s' : Server} (hs : Reachable demo s) {call : Call}
      {request response : Bytes}
      (hrun : (handlerHttpService demo call request).run s = .done response s') :
      Reachable demo s'

structure Inv (s : Server) : Prop where
  handlers : ∀ resource f, s.funcs.lookup resource = some f →
    ∃ h, f = some h ∧ SetsStatus h
  sessions : ∀ id p, s.sessions.lookup id = some p → p < s.objects.length

/-- The pointers of the session manager point to sessions. -/
def SessionsHeld (s : Server) : Prop :=
  ∀ id p, s.sessions.lookup id = some p → p < s.objects.length

/-- Serving a resource touches only the tables of texts and the record of what
was read. -/
structure Same (s s' : Server) : Prop where
  funcs : s'.funcs = s.funcs
  sessions : s'.sessions = s.sessions
  objects : s'.objects = s.objects
  number : s'.number = s.number

theorem Same.refl (s : Server) : Same s s := ⟨rfl, rfl, rfl, rfl⟩

theorem Same.read (s : Server) (path : Bytes) :
    Same s { s with reads := s.reads ++ [path] } := ⟨rfl, rfl, rfl, rfl⟩

theorem Same.trans {s s' s'' : Server} (h : Same s s') (h' : Same s' s'') :
    Same s s'' :=
  ⟨h'.funcs.trans h.funcs, h'.sessions.trans h.sessions,
    h'.objects.trans h.objects, h'.number.trans h.number⟩

theorem Inv.same {s s' : Server} (h : Inv s) (hs : Same s s') : Inv s' where
  handlers := by
    rw [hs.funcs]
    exact h.handlers
  sessions := by
    rw [hs.sessions, hs.objects]
    exact h.sessions

/-! ## Lookups -/

theorem mimeTypeOf_run (suffix : Bytes) (s : Server) :
    ∃ mime s', (mimeTypeOf suffix).run s = .done mime s' ∧ Same s s' ∧
      s'.reads = s.reads :=
  ⟨_, _, rfl, ⟨rfl, rfl, rfl, rfl⟩, rfl⟩

theorem addStatus_run (resp : HttpResponse) (code : Int32) (s : Server) :
    ∃ desc s', (addStatus resp code).run s =
        .done (resp.addStatusLine code desc) s' ∧
      Same s s' ∧ s'.reads = s.reads :=
  ⟨_, _, rfl, ⟨rfl, rfl, rfl, rfl⟩, rfl⟩

theorem funcOf_run {resource : Bytes} {s : Server} {f : Option Handler}
    (h : s.funcs.lookup resource = some f) :
    (funcOf resource).run s = .done f s := by
  simp [funcOf, UnorderedMap.access, h]

theorem funcOf_run_none {resource : Bytes} {s : Server}
    (h : s.funcs.lookup resource = none) :
    ∃ s', (funcOf resource).run s = .done none s' ∧ s'.reads = s.reads := by
  refine ⟨{ s with funcs := s.funcs.insert resource none }, ?_, rfl⟩
  simp [funcOf, UnorderedMap.access, h]

/-! ## Reading a file -/

end Server

namespace Call

variable (call : Call) (path : Bytes)

def Readable : Prop :=
  ∀ file, call.files (ofCString path) = some file → 0 ≤ file.filesize.toInt

def Blank : Prop :=
  ∀ file, call.files (ofCString path) = some file → file.filesize = 0

instance : Decidable (call.Readable path) :=
  match h : call.files (ofCString path) with
  | none => .isTrue (by simp [Readable, h])
  | some file => decidable_of_iff (0 ≤ file.filesize.toInt) (by simp [Readable, h])

instance : Decidable (call.Blank path) :=
  match h : call.files (ofCString path) with
  | none => .isTrue (by simp [Blank, h])
  | some file => decidable_of_iff (file.filesize = 0) (by simp [Blank, h])

def Served : Prop :=
  call.Readable path ∧ (call.Blank path → call.Readable Server.errorResource)

end Call

namespace Server

theorem resize_filesize (file : File) :
    (0 ≤ file.filesize.toInt ∧
      resize (sizeOfInt file.filesize) =
        .ok (List.replicate file.filesize.toInt.toNat 0)) ∨
    (file.filesize.toInt < 0 ∧
      resize (sizeOfInt file.filesize) = .error .lengthError) := by
  have hlt := file.filesize.toInt_lt
  have hle := file.filesize.le_toInt
  by_cases h : 0 ≤ file.filesize.toInt
  · left
    rw [sizeOfInt_of_nonneg h, resize, if_pos (by omega)]
    exact ⟨h, rfl⟩
  · right
    have hsize := sizeOfInt_of_neg (Int.not_le.mp h)
    rw [resize, if_neg (by omega)]
    exact ⟨Int.not_le.mp h, rfl⟩

theorem length_content (content : Bytes) (n : Nat) :
    (content.take n ++ (List.replicate n (0 : UInt8)).drop
      (content.take n).length).length = n := by
  simp only [List.length_append, List.length_take, List.length_drop,
    List.length_replicate]
  omega

theorem readFileRequest_cases (call : Call) (path : Bytes) (size : Int32)
    (s : Server) :
    (call.Readable path ∧ ∃ content n, (readFileRequest call path size).run s =
        .done (content, n) { s with reads := s.reads ++ [path] } ∧
      (content = [] ↔ call.Blank path)) ∨
    (¬ call.Readable path ∧ ¬ call.Blank path ∧
      (readFileRequest call path size).run s =
        .raised (.exn .lengthError) { s with reads := s.reads ++ [path] }) := by
  rw [readFileRequest, Proc.run_modify_bind]
  cases hfile : call.files (ofCString path) with
  | none =>
      refine .inl ⟨by simp [Call.Readable, hfile], [], size, rfl, ?_⟩
      simp [Call.Blank, hfile]
  | some file =>
      dsimp only
      rcases resize_filesize file with ⟨hpos, hresize⟩ | ⟨hneg, hresize⟩
      · rw [hresize, eval_ok, Proc.pure_bind]
        refine .inl ⟨by simpa [Call.Readable, hfile] using hpos, _, _, rfl, ?_⟩
        rw [← List.length_eq_zero_iff, List.length_replicate, length_content]
        have hzero : file.filesize = 0 ↔ file.filesize.toInt = 0 := by
          rw [← Int32.toInt_inj]
          rfl
        simp only [Call.Blank, hfile, Option.some.injEq, forall_eq', hzero]
        omega
      · rw [hresize, eval_error, Proc.raise_bind]
        refine .inr ⟨?_, ?_, rfl⟩
        · simpa [Call.Readable, hfile] using hneg
        · intro hblank
          rw [hblank file hfile] at hneg
          exact absurd hneg (by decide)

def opened (call : Call) (path : Bytes) : List Bytes :=
  path :: if call.Blank path then [errorResource] else []

/-! ## The branch without arguments -/

def Answers (o : Outcome Fault Server HttpResponse) : Prop :=
  ∃ resp s', o = .done resp s' ∧ resp.statusCode ≠ none

@[simp] theorem answers_done (resp : HttpResponse) (s : Server) :
    Answers (.done resp s) ↔ resp.statusCode ≠ none := by
  simp [Answers]

@[simp] theorem answers_raised (e : Fault) (s : Server) :
    ¬ Answers (.raised e s) := by
  simp [Answers]

/-- A run of the branch from `s`: what it leaves alone, what it reads, and when
it answers. -/
structure Serves (s : Server) (reads : List Bytes) (ok : Prop)
    (o : Outcome Fault Server HttpResponse) : Prop where
  same : Same s o.state
  reads : o.state.reads = s.reads ++ reads
  answers : Answers o ↔ ok

theorem serveFile_spec (call : Call) (req : HttpRequest) (s : Server) :
    Serves s (opened call req.path) (call.Served req.path)
      ((serveFile call req).run s) := by
  have herror : wwwroot ++ pathSep ++ errorpage = errorResource := by decide
  rw [serveFile, herror]
  rcases readFileRequest_cases call req.path 0 s with
    ⟨hreadable, content, n, hrun, hcontent⟩ | ⟨hreadable, hblank, hrun⟩
  swap
  · rw [Proc.run_bind_raised hrun, opened, if_neg hblank]
    exact ⟨Same.read s req.path, rfl, by simp [Call.Served, hreadable]⟩
  rw [Proc.run_bind_done hrun]
  dsimp only
  by_cases hempty : content = []
  · -- nothing was read: the page for missing files
    have hblank := hcontent.mp hempty
    rw [if_pos hempty]
    obtain ⟨desc, s₁, hstatus, hs₁, hreads₁⟩ :=
      addStatus_run {} 404 { s with reads := s.reads ++ [req.path] }
    rw [Proc.run_bind_done hstatus]
    have hreads : s₁.reads ++ [errorResource] = s.reads ++ opened call req.path := by
      rw [hreads₁, opened, if_pos hblank, List.append_assoc]
      rfl
    have hs : Same s { s₁ with reads := s₁.reads ++ [errorResource] } :=
      ((Same.read s req.path).trans hs₁).trans (Same.read s₁ errorResource)
    rcases readFileRequest_cases call errorResource n s₁ with
      ⟨herr, text404, m, hrun', -⟩ | ⟨herr, -, hrun'⟩
    · rw [Proc.run_bind_done hrun']
      dsimp only
      obtain ⟨mime, s₂, hmime, hs₂, hreads₂⟩ := mimeTypeOf_run (text ".html")
        { s₁ with reads := s₁.reads ++ [errorResource] }
      rw [Proc.run_bind_done hmime]
      exact ⟨hs.trans hs₂, hreads₂.trans hreads, by simp [Call.Served, hreadable, herr]⟩
    · rw [Proc.run_bind_raised hrun']
      exact ⟨hs, hreads, by simp [Call.Served, hblank, herr]⟩
  · have hblank : ¬ call.Blank req.path := fun h => hempty (hcontent.mpr h)
    rw [if_neg hempty]
    obtain ⟨desc, s₁, hstatus, hs₁, hreads₁⟩ :=
      addStatus_run {} 200 { s with reads := s.reads ++ [req.path] }
    rw [Proc.run_bind_done hstatus]
    obtain ⟨mime, s₂, hmime, hs₂, hreads₂⟩ := mimeTypeOf_run req.suffix s₁
    rw [Proc.run_bind_done hmime]
    refine ⟨((Same.read s req.path).trans hs₁).trans hs₂, ?_, ?_⟩
    · rw [opened, if_neg hblank]
      exact hreads₂.trans hreads₁
    · simp [Call.Served, hreadable, hblank]

theorem logActivity_run {s : Server} (h : SessionsHeld s) (demo : Demo) (sessionid : Bytes) :
    (logActivity demo sessionid).run s = .done () s := by
  cases demo with
  | http => rfl
  | cookieSession =>
      rw [logActivity]
      split
      · rfl
      · rw [Proc.run_get_bind]
        cases hptr : getSession s sessionid with
        | none => rfl
        | some sptr =>
            have hlt := h sessionid sptr hptr
            dsimp only
            rw [List.getElem?_eq_getElem hlt]
            rfl

def Special (req : HttpRequest) : Prop :=
  req.path = redirResource ∨ req.path = errorResource

instance (req : HttpRequest) : Decidable (Special req) :=
  inferInstanceAs (Decidable (_ ∨ _))

theorem serveResource_spec (demo : Demo) (call : Call) (req : HttpRequest)
    {s : Server} (h : Inv s) :
    Serves s (if Special req then [] else opened call req.path)
      (req.path = redirResource ∨
        req.path ≠ errorResource ∧ call.Served req.path)
      ((serveResource demo call req).run s) := by
  rw [serveResource, Proc.run_bind_done (logActivity_run h.sessions demo _)]
  by_cases hredir : req.path = redirResource
  · rw [if_pos hredir, if_pos (show Special req from .inl hredir)]
    obtain ⟨desc, s₁, hstatus, hs₁, hreads₁⟩ := addStatus_run {} (redirStatus demo) s
    obtain ⟨mime, s₂, hmime, hs₂, hreads₂⟩ := mimeTypeOf_run req.suffix s₁
    rw [Proc.run_bind_done hstatus, Proc.run_bind_done hmime]
    refine ⟨hs₁.trans hs₂, ?_, by simp [hredir]⟩
    rw [List.append_nil]
    exact hreads₂.trans hreads₁
  · rw [if_neg hredir]
    by_cases herror : req.path = errorResource
    · rw [if_pos herror, if_pos (show Special req from .inr herror)]
      refine ⟨Same.refl s, by simp, ?_⟩
      simp [← herror, hredir]
    · rw [if_neg herror, if_neg (show ¬ Special req from not_or.mpr ⟨hredir, herror⟩)]
      have hfile := serveFile_spec call req s
      refine ⟨hfile.same, hfile.reads, hfile.answers.trans ?_⟩
      simp [hredir, herror]

/-! ## The branch with arguments -/

def openSession (s : Server) (session : Session) (id : Bytes) : Server :=
  { s with
    objects := s.objects ++ [session]
    sessions := s.sessions.insert id ((s.sessions.lookup id).getD s.objects.length) }

theorem SessionsHeld.openSession {s : Server} (h : SessionsHeld s) (session : Session)
    (id : Bytes) : SessionsHeld (s.openSession session id) := by
  intro id' p hp
  rw [Server.openSession, List.length_append, List.length_singleton]
  by_cases hid : id' = id
  · subst hid
    rw [Server.openSession, AList.lookup_insert, Option.some.injEq] at hp
    cases hold : s.sessions.lookup id' with
    | none => simp [← hp, hold]
    | some q =>
        have hlt := h id' q hold
        rw [hold, Option.getD_some] at hp
        exact hp ▸ Nat.lt_succ_of_lt hlt
  · rw [Server.openSession, AList.lookup_insert_ne hid] at hp
    exact Nat.lt_succ_of_lt (h id' p hp)

/-- A handler is registered for the path, and there is a number for the session
that has to be made. -/
def Runnable (demo : Demo) (req : HttpRequest) (s : Server) : Prop :=
  (∃ f, s.funcs.lookup req.path = some (some f)) ∧
    (demo = .cookieSession → req.sessionid = [] → s.number ≠ Int32.maxValue)

theorem runHandler_spec (demo : Demo) (call : Call) (req : HttpRequest)
    {s : Server} (h : Inv s) :
    ((runHandler demo call req).run s).state.reads = s.reads ∧
      (Answers ((runHandler demo call req).run s) ↔ Runnable demo req s) ∧
      ∀ resp s', (runHandler demo call req).run s = .done resp s' → Inv s' := by
  rw [runHandler]
  cases hf : s.funcs.lookup req.path with
  | none =>
      obtain ⟨s', hrun, hreads⟩ := funcOf_run_none hf
      rw [Proc.run_bind_done hrun]
      exact ⟨hreads, by simp [Runnable, hf], by simp⟩
  | some f =>
      obtain ⟨f, rfl, hsets⟩ := h.handlers req.path f hf
      rw [Proc.run_bind_done (funcOf_run hf)]
      dsimp only
      by_cases hnew : demo = .cookieSession ∧ req.sessionid = []
      · rw [if_pos hnew]
        by_cases hmax : s.number = Int32.maxValue
        · have hnext : nextNumber.run s = .raised (.exn .signedOverflow) s := by
            rw [nextNumber, Proc.run_get_bind, if_pos hmax]
            rfl
          rw [Proc.run_bind_raised hnext]
          exact ⟨rfl, by simp [Runnable, hnew, hmax], by simp⟩
        · have hnext : nextNumber.run s =
              .done (intToString s.number.toInt) { s with number := s.number + 1 } := by
            rw [nextNumber, Proc.run_get_bind, if_neg hmax]
            rfl
          rw [Proc.run_bind_done hnext]
          refine ⟨rfl, ?_, ?_⟩
          · refine iff_of_true ⟨_, _, rfl, ?_⟩ ⟨⟨f, hf⟩, fun _ _ => hmax⟩
            exact hsets call.outside req.getters
          · rintro resp s' hdone
            cases hdone
            exact ⟨h.handlers, SessionsHeld.openSession h.sessions _ _⟩
      · rw [if_neg hnew]
        refine ⟨rfl, ?_, ?_⟩
        · refine iff_of_true ⟨_, _, rfl, hsets call.outside req.getters⟩ ⟨⟨f, hf⟩, ?_⟩
          exact fun hdemo hid => absurd ⟨hdemo, hid⟩ hnew
        · rintro resp s' hdone
          cases hdone
          exact h

/-! ## A call -/

theorem respond_inv {demo : Demo} {call : Call} {request : Bytes} {s s' : Server}
    {resp : HttpResponse} (h : Inv s)
    (hrun : (respond demo call request).run s = .done resp s') : Inv s' := by
  rw [respond] at hrun
  split at hrun
  · exact (runHandler_spec demo call _ h).2.2 resp s' hrun
  · have hsame := (serveResource_spec demo call (parsed demo request) h).same
    rw [hrun] at hsame
    exact h.same hsame

theorem inv_construct {conf : Conf} {s : Server} (h : construct conf = .ok s) :
    Inv s := by
  have hempty : s.funcs = ∅ ∧ s.sessions = ∅ := by
    unfold construct at h
    split at h <;> cases h
    exact ⟨rfl, rfl⟩
  refine ⟨?_, ?_⟩
  · simp [hempty.1]
  · simp [hempty.2]

theorem Inv.addHandler {s : Server} (h : Inv s) (functionname : Bytes) {f : Handler}
    (hf : SetsStatus f) : Inv (s.addHandler functionname (some f)) where
  handlers := by
    intro resource g hg
    by_cases hres : resource = wwwroot ++ pathSep ++ functionname
    · subst hres
      rw [Server.addHandler, AList.lookup_insert] at hg
      exact ⟨f, (Option.some.inj hg).symm, hf⟩
    · rw [Server.addHandler, AList.lookup_insert_ne hres] at hg
      exact h.handlers resource g hg
  sessions := h.sessions

theorem inv_of_reachable {demo : Demo} {s : Server} (h : Reachable demo s) :
    Inv s := by
  induction h with
  | construct hrun => exact inv_construct hrun
  | addHandler _ functionname hf ih => exact ih.addHandler functionname hf
  | request _ hrun ih =>
      rw [handlerHttpService, Proc.run_bind_eq_done] at hrun
      obtain ⟨resp, s₁, hresp, hserialize⟩ := hrun
      cases hserialize
      exact respond_inv ih hresp

def AnsweredWithStatus (demo : Demo) (call : Call) (request : Bytes) (s : Server) :
    Prop :=
  ∃ resp s', (respond demo call request).run s = .done resp s' ∧
    resp.statusCode ≠ none ∧
    (handlerHttpService demo call request).run s =
      .done (resp.serialize call.junk (call.order resp.headerskv)).2 s'

def Answerable (demo : Demo) (call : Call) (req : HttpRequest) (s : Server) : Prop :=
  if req.isExec then Runnable demo req s
  else req.path = redirResource ∨ req.path ≠ errorResource ∧ call.Served req.path

theorem request_answered_iff {demo : Demo} {s : Server} (h : Reachable demo s)
    (call : Call) (request : Bytes) :
    AnsweredWithStatus demo call request s ↔
      Answerable demo call (parsed demo request) s := by
  have hinv := inv_of_reachable h
  have hanswers : AnsweredWithStatus demo call request s ↔
      Answers ((respond demo call request).run s) := by
    constructor
    · rintro ⟨resp, s', hrun, hstatus, -⟩
      exact ⟨resp, s', hrun, hstatus⟩
    · rintro ⟨resp, s', hrun, hstatus⟩
      refine ⟨resp, s', hrun, hstatus, ?_⟩
      rw [handlerHttpService, Proc.run_bind_done hrun]
      rfl
  rw [hanswers, respond, Answerable]
  split
  · exact (runHandler_spec demo call _ hinv).2.1
  · exact (serveResource_spec demo call _ hinv).answers

/-! ## The service of `main` -/

/-- It looks at the method and the arguments for a log line only. -/
def login : Handler := fun _ _ =>
  let page := text "<html><h1>haha,no content!</h1></html>"
  (((({} : HttpResponse).addStatusLine 200 (text "OK")).addHeader
    (text "Content-Type") (text "text/html")).addHeader
    (text "Content-Length") (natToString page.length)).addText page

def mainServer : Server :=
  ({ mimeType := ∅, statusCodeToDesc := ∅ } : Server).addHandler (text "login")
    (some login)

theorem reachable_mainServer (demo : Demo) : Reachable demo mainServer := by
  have hconstruct : Reachable demo { mimeType := ∅, statusCodeToDesc := ∅ } :=
    .construct (show construct ⟨none, none⟩ = _ from rfl)
  exact hconstruct.addHandler (text "login") fun _ _ => by simp [login]

def emptyCall : Call where
  files := fun _ => none
  rand := 1
  created := 0
  now := 0
  outside := 0
  junk := 0
  order := fun _ => ⟨_, .refl _⟩

theorem request_answered_iff_login :
    AnsweredWithStatus .cookieSession emptyCall
      (text "POST /login HTTP/1.0\r\n\r\nname=xp") mainServer := by
  have hexec : (parsed .cookieSession
      (text "POST /login HTTP/1.0\r\n\r\nname=xp")).isExec = true := by decide
  have hpath : (parsed .cookieSession
      (text "POST /login HTTP/1.0\r\n\r\nname=xp")).path =
        wwwroot ++ pathSep ++ text "login" := by decide
  refine (request_answered_iff (reachable_mainServer .cookieSession) emptyCall _).mpr ?_
  rw [Answerable, if_pos hexec]
  refine ⟨⟨login, ?_⟩, fun _ _ => by decide⟩
  rw [hpath, mainServer, addHandler, AList.lookup_insert]

/-- A query on a path without a handler. -/
theorem unregistered_not_answered :
    ¬ ∀ (demo : Demo) (s : Server), Reachable demo s →
      ∀ (call : Call) (request : Bytes), AnsweredWithStatus demo call request s := by
  intro h
  obtain ⟨resp, s', hrun, -, -⟩ := h .cookieSession mainServer
    (reachable_mainServer .cookieSession) emptyCall (text "GET /?a HTTP/1.0\r\n\r\n")
  have hdone : ((respond .cookieSession emptyCall
      (text "GET /?a HTTP/1.0\r\n\r\n")).run mainServer).isDone = false := by decide
  rw [hrun] at hdone
  cases hdone

end Server

end LinuxAdvance.Http
