import LinuxAdvance.Http.History
import LinuxAdvance.Http.StaticFiles

/-!
# A site on the wire

What is read off the bytes of a response for a file: the status with its text, the
length, the type and the content.  The texts are those of the configuration files
the service was started with, whatever it has answered since.
-/

namespace LinuxAdvance.Http

open LinuxAdvance.Foundation
open LinuxAdvance.Cxx

namespace Server

/-- The states of a service that was started with the configuration. -/
inductive Runs (demo : Demo) (conf : Conf) : Server → Prop
  | construct {s : Server} (hrun : construct conf = .ok s) : Runs demo conf s
  | addHandler {s : Server} (hs : Runs demo conf s) (functionname : Bytes)
      (f : Option Handler) : Runs demo conf (s.addHandler functionname f)
  | request {s s' : Server} (hs : Runs demo conf s) (hserved : Served demo s s') :
      Runs demo conf s'

theorem Runs.arises {demo : Demo} {conf : Conf} {s : Server} (h : Runs demo conf s) :
    Arises demo s := by
  induction h with
  | construct hrun => exact .construct hrun
  | addHandler _ functionname f ih => exact ih.addHandler functionname f
  | request _ hserved ih => exact ih.request hserved

theorem Runs.says {demo : Demo} {conf : Conf} {s : Server} (h : Runs demo conf s) :
    Says conf s := by
  induction h with
  | construct hrun => exact says_construct hrun
  | addHandler _ functionname f ih => exact ⟨ih.mimeType, ih.desc⟩
  | request _ hserved ih =>
      exact keeps_of_step (I := Says conf) (fun _ _ => Says.change) hserved.changes ih

/-! ## Serving -/

structure Page where
  code : Int32
  content : Bytes
  suffix : Bytes

def missingPage (call : Call) : Page where
  code := 404
  content := ((call.files errorResource).map File.content).getD []
  suffix := text ".html"

/-- An empty file counts as missing. -/
def page (call : Call) (req : HttpRequest) : Page :=
  match call.files (ofCString req.path) with
  | none => missingPage call
  | some file => if file.content = [] then missingPage call else ⟨200, file.content, req.suffix⟩

namespace Page

variable (p : Page) (conf : Conf)

def headers : List (Bytes × Bytes) :=
  [(text "Content-Length", natToString p.content.length),
    (text "Content-Type", conf.mimeOf p.suffix)]

def response : HttpResponse :=
  HttpResponse.built p.code (conf.descOf p.code) (p.headers conf) p.content

end Page

theorem run_addStatus {conf : Conf} {s : Server} (h : Says conf s) (code : Int32) :
    ∃ s', (addStatus {} code).run s =
        .done (({} : HttpResponse).addStatusLine code (conf.descOf code)) s' ∧ Says conf s' := by
  refine ⟨_, ?_, h.change (.desc s code)⟩
  rw [← h.desc code, ← fst_access]
  rfl

theorem run_mimeTypeOf {conf : Conf} {s : Server} (h : Says conf s) (suffix : Bytes) :
    ∃ s', (mimeTypeOf suffix).run s = .done (conf.mimeOf suffix) s' := by
  refine ⟨{ s with mimeType := (UnorderedMap.access s.mimeType suffix []).2 }, ?_⟩
  rw [← h.mimeType suffix, ← fst_access]
  rfl

theorem run_readErrorPage {call : Call} (hfiles : RegularFiles call.files) {size : Int32}
    (hsize : size = 0) (s : Server) : ∃ filesize,
    (readFileRequest call (wwwroot ++ pathSep ++ errorpage) size).run s =
      .done ((missingPage call).content, filesize)
        { s with reads := s.reads ++ [wwwroot ++ pathSep ++ errorpage] } ∧
      intToString filesize.toInt = natToString (missingPage call).content.length := by
  have hpath : ofCString (wwwroot ++ pathSep ++ errorpage) = errorResource := by decide
  cases hpage : call.files errorResource with
  | none =>
      refine ⟨size, ?_, ?_⟩
      · rw [readFileRequest_none (hpath ▸ hpage), missingPage, hpage]
        rfl
      · rw [hsize, missingPage, hpage]
        rfl
  | some file =>
      refine ⟨file.filesize, ?_, ?_⟩
      · rw [readFileRequest_some hfiles (hpath ▸ hpage), missingPage, hpage]
        rfl
      · rw [filesize_eq hfiles hpage, missingPage, hpage]
        rfl

theorem serveFile_missingPage {call : Call} (hfiles : RegularFiles call.files) {conf : Conf}
    {s s₁ : Server} (hutter : Says conf s₁) {req : HttpRequest} {size : Int32} (hsize : size = 0)
    (hread : (readFileRequest call req.path 0).run s = .done ([], size) s₁) :
    ∃ s', (serveFile call req).run s = .done ((missingPage call).response conf) s' := by
  obtain ⟨s₂, hstatus, hutter₂⟩ := run_addStatus hutter 404
  obtain ⟨filesize, hpage, hlength⟩ := run_readErrorPage hfiles hsize s₂
  have hutter₃ := hutter₂.change (.read s₂ (wwwroot ++ pathSep ++ errorpage))
  obtain ⟨s₄, hmime⟩ := run_mimeTypeOf hutter₃ (text ".html")
  rw [serveFile, Proc.run_bind_done hread]
  dsimp only
  rw [if_pos rfl, Proc.run_bind_done hstatus, Proc.run_bind_done hpage]
  dsimp only
  rw [Proc.run_bind_done hmime, hlength]
  exact ⟨_, rfl⟩

theorem serveFile_page {call : Call} (hfiles : RegularFiles call.files) {conf : Conf} {s : Server}
    (hutter : Says conf s) (req : HttpRequest) :
    ∃ s', (serveFile call req).run s = .done ((page call req).response conf) s' := by
  have hutter₁ := hutter.change (.read s req.path)
  cases hfile : call.files (ofCString req.path) with
  | none =>
      rw [show page call req = missingPage call by rw [page, hfile]]
      exact serveFile_missingPage hfiles hutter₁ rfl (readFileRequest_none hfile 0 s)
  | some file =>
      have hread := readFileRequest_some hfiles hfile 0 s
      have hlength := filesize_eq hfiles hfile
      by_cases hempty : file.content = []
      · rw [show page call req = missingPage call by simp only [page, hfile, if_pos hempty]]
        rw [hempty] at hread hlength
        exact serveFile_missingPage hfiles hutter₁ (Int32.toInt_inj.mp hlength) hread
      · rw [show page call req = ⟨200, file.content, req.suffix⟩ by
          simp only [page, hfile, if_neg hempty]]
        obtain ⟨s₂, hstatus, hutter₂⟩ := run_addStatus hutter₁ 200
        obtain ⟨s₃, hmime⟩ := run_mimeTypeOf hutter₂ req.suffix
        rw [serveFile, Proc.run_bind_done hread]
        dsimp only
        rw [if_neg hempty, Proc.run_bind_done hstatus, Proc.run_bind_done hmime, hlength]
        exact ⟨_, rfl⟩

/-- The response for a page, read back: its status line, its content, its two
headers and no other. -/
theorem deSerialize_page (reader : Demo) (p : Page) (conf : Conf) (junk : Int32)
    (order : UnorderedMap.Order (p.response conf).headerskv) :
    let got := (HttpRequest.deSerialize reader {} ((p.response conf).serialize junk order).2).1
    got.reqLine = HttpResponse.statusLine p.code (conf.descOf p.code) ∧
      got.reqText = p.content ∧
      ∀ key, got.headerskv.lookup key = lastValue key (p.headers conf) := by
  have hbuilt := HttpResponse.built_eq p.code (conf.descOf p.code) (p.headers conf) p.content
  have hmap (key : Bytes) :
      (p.response conf).headerskv.lookup key = lastValue key (p.headers conf) := by
    rw [Page.response, hbuilt]
    simp [UnorderedMap.lookup_insertAll]
  have hkeys : ∀ e ∈ p.headers conf, ¬ reqHeaderSep <:+: e.1 ∧ ¬ sep <:+: e.1 ∧ ¬ sep <:+: e.2 := by
    have hdigits : ¬ sep <:+: natToString p.content.length :=
      not_sep_of_notMem (notMem_natToString (by decide) _)
    simp only [Page.headers, List.forall_mem_cons]
    exact ⟨⟨by decide, by decide, hdigits⟩, ⟨by decide, by decide, not_sep_mimeOf conf _⟩, by simp⟩
  have hvalues : ∀ key value, (p.response conf).headerskv.lookup key = some value →
      ¬ reqHeaderSep <:+: key ∧ ¬ sep <:+: key ∧ ¬ sep <:+: value := by
    intro key value hvalue
    rw [hmap] at hvalue
    exact hkeys (key, value) (mem_of_lastValue hvalue)
  obtain ⟨hline, hbody, hlookup⟩ := HttpResponse.deSerialize_serialize reader
    (by rw [Page.response, hbuilt]) (by rw [Page.response, hbuilt]) (by rw [Page.response, hbuilt])
    (by rw [Page.response, hbuilt]; exact not_sep_descOf conf p.code) hvalues junk order
  refine ⟨hline.trans (by rw [Page.response, hbuilt]), hbody.trans (by rw [Page.response, hbuilt]),
    fun key => ?_⟩
  rw [hlookup, hmap]

theorem static_exchange (demo reader : Demo) {conf : Conf} {s : Server} (h : Runs demo conf s)
    {call : Call} (hfiles : RegularFiles call.files) {request : Bytes}
    (hexec : (parsed demo request).isExec = false) (hspecial : ¬ Special (parsed demo request)) :
    ∃ response s', (handlerHttpService demo call request).run s = .done response s' ∧
      let found := page call (parsed demo request)
      let got := (HttpRequest.deSerialize reader {} response).1
      got.reqLine = HttpResponse.statusLine found.code (conf.descOf found.code) ∧
        got.reqText = found.content ∧
        ∀ key, got.headerskv.lookup key = lastValue key (found.headers conf) := by
  obtain ⟨hredir, herror⟩ := not_or.mp hspecial
  obtain ⟨s', hserve⟩ := serveFile_page hfiles h.says (parsed demo request)
  have hrespond : (respond demo call request).run s =
      .done ((page call (parsed demo request)).response conf) s' := by
    rw [respond, if_neg (by simp [hexec]), serveResource,
      Proc.run_bind_done (logActivity_run h.arises.sessionsHeld demo _), if_neg hredir,
      if_neg herror]
    exact hserve
  refine ⟨_, s', ?_, deSerialize_page reader _ conf call.junk (call.order _)⟩
  rw [handlerHttpService, Proc.run_bind_done hrespond]
  rfl

/-- The second entry for `.txt` counts, and the line without a separator hides
what follows it. -/
def siteConf : Conf where
  mimeType := some (text ".txt: text/plain\n.txt: text/x\nstop\n.txt: text/y\n")
  statusCodeDesc := some (text "200: OK\n404: Not Found")

theorem static_exchange_site :
    ∃ s response s', construct siteConf = .ok s ∧
      (handlerHttpService .http site (text "GET /a.txt HTTP/1.0\r\n\r\n")).run s =
        .done response s' ∧
      let got := (HttpRequest.deSerialize .cookieSession {} response).1
      got.reqLine = text "HTTP/1.0 200 OK" ∧ got.reqText = text "a" ∧
        got.headerskv.lookup (text "Content-Type") = some (text "text/x") := by
  have hconstruct : construct siteConf = .ok _ := rfl
  have hexec : (parsed .http (text "GET /a.txt HTTP/1.0\r\n\r\n")).isExec = false := by decide
  obtain ⟨response, s', hrun, hline, hbody, hheaders⟩ := static_exchange .http .cookieSession
    (.construct hconstruct) regularFiles_site hexec (by decide)
  have hpage : page site (parsed .http (text "GET /a.txt HTTP/1.0\r\n\r\n")) =
      ⟨200, text "a", text ".txt"⟩ := rfl
  rw [hpage] at hline hbody hheaders
  refine ⟨_, response, s', hconstruct, hrun, hline.trans (by decide), hbody, ?_⟩
  rw [hheaders]
  decide

end Server

end LinuxAdvance.Http
