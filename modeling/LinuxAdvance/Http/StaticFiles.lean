import LinuxAdvance.Http.Answering

/-!
# Files that are served

On a file system of regular files, what the branch without arguments makes of a
resource.  `ReadFileRequest` returns nothing for a file that is not there and for
one that is empty, and opens the path up to its first NUL.
-/

namespace LinuxAdvance.Http

open LinuxAdvance.Foundation
open LinuxAdvance.Cxx

/-- Regular files below 2 GiB; a file name has no NUL. -/
structure RegularFiles (files : Bytes → Option File) : Prop where
  size : ∀ {path file}, files path = some file → file.size = file.content.length
  small : ∀ {path file}, files path = some file → file.content.length < 2 ^ 31
  named : ∀ {path file}, files path = some file → (0 : UInt8) ∉ path

structure HttpResponse.Shows (resp : HttpResponse) (code : Int32) (content : Bytes) : Prop where
  status : resp.statusCode = some code
  body : resp.respText = content
  contentLength :
    resp.headerskv.lookup (text "Content-Length") = some (natToString content.length)

namespace Server

open HttpResponse (Shows)

def Faithful (call : Call) (path : Bytes) (resp : HttpResponse) : Prop :=
  match call.files path with
  | some file => Shows resp 200 file.content
  | none => ∀ page, call.files errorResource = some page → Shows resp 404 page.content

/-! ## `ReadFileRequest` -/

theorem filesize_eq {files : Bytes → Option File} (hfiles : RegularFiles files) {path : Bytes}
    {file : File} (hfile : files path = some file) :
    file.filesize.toInt = file.content.length := by
  rw [File.filesize, hfiles.size hfile]
  exact toInt_intOfSize_of_lt (hfiles.small hfile)

theorem readFileRequest_none {call : Call} {path : Bytes}
    (hfile : call.files (ofCString path) = none) (size : Int32) (s : Server) :
    (readFileRequest call path size).run s =
      .done ([], size) { s with reads := s.reads ++ [path] } := by
  rw [readFileRequest, Proc.run_modify_bind, hfile]
  rfl

theorem readFileRequest_some {call : Call} (hfiles : RegularFiles call.files) {path : Bytes}
    {file : File} (hfile : call.files (ofCString path) = some file) (size : Int32) (s : Server) :
    (readFileRequest call path size).run s =
      .done (file.content, file.filesize) { s with reads := s.reads ++ [path] } := by
  have hsize := filesize_eq hfiles hfile
  rw [readFileRequest, Proc.run_modify_bind, hfile]
  dsimp only
  rcases resize_filesize file with ⟨-, hresize⟩ | ⟨hneg, -⟩
  · rw [hresize, eval_ok, Proc.pure_bind, hsize]
    simp
  · omega

theorem shows_file {files : Bytes → Option File} (hfiles : RegularFiles files) {path : Bytes}
    {file : File} (hfile : files path = some file) (code : Int32) (desc mime : Bytes) :
    Shows ((((({} : HttpResponse).addStatusLine code desc).addHeader (text "Content-Length")
      (intToString file.filesize.toInt)).addHeader (text "Content-Type") mime).addText
        file.content) code file.content := by
  have hkeys : text "Content-Length" ≠ text "Content-Type" := by decide
  refine ⟨rfl, rfl, ?_⟩
  rw [filesize_eq hfiles hfile]
  simp [HttpResponse.addText, HttpResponse.addHeader, AList.lookup_insert_ne hkeys, intToString]

/-! ## The branch without arguments -/

theorem serveFile_content {call : Call} (hfiles : RegularFiles call.files) {req : HttpRequest}
    {file : File} (hfile : call.files (ofCString req.path) = some file)
    (hcontent : file.content ≠ []) (s : Server) :
    ∃ resp s', (serveFile call req).run s = .done resp s' ∧ Shows resp 200 file.content := by
  rw [serveFile, Proc.run_bind_done (readFileRequest_some hfiles hfile 0 s)]
  dsimp only
  rw [if_neg hcontent]
  exact ⟨_, _, rfl, shows_file hfiles hfile 200 _ _⟩

theorem serveFile_missing {call : Call} (hfiles : RegularFiles call.files) {req : HttpRequest}
    (hmissing : ∀ file, call.files (ofCString req.path) = some file → file.content = [])
    {page : File} (hpage : call.files errorResource = some page) (s : Server) :
    ∃ resp s', (serveFile call req).run s = .done resp s' ∧ Shows resp 404 page.content := by
  obtain ⟨size, hread⟩ : ∃ size, (readFileRequest call req.path 0).run s =
      .done ([], size) { s with reads := s.reads ++ [req.path] } := by
    cases hfile : call.files (ofCString req.path) with
    | none => exact ⟨0, readFileRequest_none hfile 0 s⟩
    | some file =>
        refine ⟨file.filesize, ?_⟩
        rw [readFileRequest_some hfiles hfile, hmissing file hfile]
  have herror : call.files (ofCString (wwwroot ++ pathSep ++ errorpage)) = some page := by
    rw [← hpage]
    exact congrArg call.files (by decide)
  obtain ⟨desc, s₁, hstatus, -, -⟩ :=
    addStatus_run {} 404 { s with reads := s.reads ++ [req.path] }
  rw [serveFile, Proc.run_bind_done hread]
  dsimp only
  rw [if_pos rfl, Proc.run_bind_done hstatus,
    Proc.run_bind_done (readFileRequest_some hfiles herror size s₁)]
  exact ⟨_, _, rfl, shows_file hfiles hpage 404 _ _⟩

/-! ## When the right file is served -/

theorem faithful_file {files : Bytes → Option File} (hfiles : RegularFiles files) {path : Bytes}
    {file : File} (hfile : files (ofCString path) = some file) {call : Call}
    (hcall : call.files = files) {page : File} (hpage : files errorResource = some page)
    {resp : HttpResponse} :
    Faithful call path resp ↔
      if (0 : UInt8) ∈ path then Shows resp 404 page.content
      else Shows resp 200 file.content := by
  rw [Faithful, hcall]
  by_cases hnul : (0 : UInt8) ∈ path
  · have hnone : files path = none := by
      rw [Option.eq_none_iff_forall_ne_some]
      exact fun file h => hfiles.named h hnul
    rw [if_pos hnul, hnone]
    simp only [hpage, Option.some.injEq, forall_eq']
  · rw [if_neg hnul]
    rw [ofCString_of_notMem hnul] at hfile
    rw [hfile]

theorem faithful_missing {call : Call} (hfiles : RegularFiles call.files) {path : Bytes}
    (hfile : call.files (ofCString path) = none) {page : File}
    (hpage : call.files errorResource = some page) {resp : HttpResponse}
    (hshows : Shows resp 404 page.content) : Faithful call path resp := by
  have hnone : call.files path = none := by
    rw [Option.eq_none_iff_forall_ne_some]
    intro file h
    rw [ofCString_of_notMem (hfiles.named h), h] at hfile
    cases hfile
  rw [Faithful, hnone]
  simpa only [hpage, Option.some.injEq, forall_eq'] using hshows

/-- The file the path names as a C string is empty exactly when the path itself
names none. -/
def Servable (call : Call) (path : Bytes) : Prop :=
  path ≠ errorResource ∧ ∀ file, call.files (ofCString path) = some file →
    (file.content = [] ↔ (0 : UInt8) ∈ path)

theorem not_shows_both {resp : HttpResponse} {content content' : Bytes}
    (h : Shows resp 200 content) : ¬ Shows resp 404 content' := by
  intro h'
  have hsame := Option.some.inj (h.status.symm.trans h'.status)
  exact absurd hsame (by decide)

theorem exists_done_iff {p : Proc Fault Server HttpResponse} {s s' : Server}
    {resp : HttpResponse} (hrun : p.run s = .done resp s') {P : HttpResponse → Prop} :
    (∃ resp s', p.run s = .done resp s' ∧ P resp) ↔ P resp := by
  constructor
  · rintro ⟨resp', s'', hrun', hresp'⟩
    rw [hrun] at hrun'
    cases hrun'
    exact hresp'
  · exact fun hresp => ⟨resp, s', hrun, hresp⟩

theorem serveFile_faithful_iff {call : Call} (hfiles : RegularFiles call.files) {page : File}
    (hpage : call.files errorResource = some page) (req : HttpRequest) (s : Server) :
    (∃ resp s', (serveFile call req).run s = .done resp s' ∧ Faithful call req.path resp) ↔
      ∀ file, call.files (ofCString req.path) = some file →
        (file.content = [] ↔ (0 : UInt8) ∈ req.path) := by
  cases hfile : call.files (ofCString req.path) with
  | none =>
      obtain ⟨resp, s', hrun, hshows⟩ := serveFile_missing hfiles
        (fun file h => by rw [hfile] at h; cases h) hpage s
      simp only [reduceCtorEq, false_implies, implies_true, iff_true]
      exact ⟨resp, s', hrun, faithful_missing hfiles hfile hpage hshows⟩
  | some file =>
      simp only [Option.some.injEq, forall_eq', faithful_file hfiles hfile rfl hpage]
      by_cases hcontent : file.content = []
      · obtain ⟨resp, s', hrun, hshows⟩ := serveFile_missing hfiles
          (fun file' h => by rw [hfile] at h; cases h; exact hcontent) hpage s
        rw [exists_done_iff hrun]
        by_cases hnul : (0 : UInt8) ∈ req.path
        · simp [hnul, hcontent, hshows]
        · simp only [hnul, hcontent, if_false, iff_false, not_true_eq_false]
          exact fun h => not_shows_both h hshows
      · obtain ⟨resp, s', hrun, hshows⟩ := serveFile_content hfiles hfile hcontent s
        rw [exists_done_iff hrun]
        by_cases hnul : (0 : UInt8) ∈ req.path
        · simp only [hnul, hcontent, if_true, iff_true, iff_false]
          exact not_shows_both hshows
        · simp [hnul, hcontent, hshows]

/-- A request without arguments for anything but `redir` is given its file, or the
page for missing ones, exactly when the resource is not that page itself and the
file that is opened is not taken for another case. -/
theorem static_serving_iff (demo : Demo) {s : Server} (h : Reachable demo s) {call : Call}
    (hfiles : RegularFiles call.files) {page : File}
    (hpage : call.files errorResource = some page) {request : Bytes}
    (hexec : (parsed demo request).isExec = false)
    (hredir : (parsed demo request).path ≠ redirResource) :
    (∃ resp s', (respond demo call request).run s = .done resp s' ∧
        Faithful call (parsed demo request).path resp) ↔
      Servable call (parsed demo request).path := by
  have hsessions : SessionsHeld s := (inv_of_reachable h).sessions
  have hserve : (respond demo call request).run s =
      (if (parsed demo request).path = errorResource then pure {}
        else serveFile call (parsed demo request)).run s := by
    rw [respond, if_neg (by simp [hexec]), serveResource,
      Proc.run_bind_done (logActivity_run hsessions demo _), if_neg hredir]
  rw [hserve, Servable]
  by_cases herror : (parsed demo request).path = errorResource
  · rw [if_pos herror, exists_done_iff (Proc.run_pure ({} : HttpResponse) s), Faithful, herror,
      hpage]
    simp only [ne_eq, not_true_eq_false, false_and, iff_false]
    intro hshows
    cases hshows.status
  · rw [if_neg herror, serveFile_faithful_iff hfiles hpage]
    simp [herror]

def siteFiles (path : Bytes) : Option File :=
  if path = text "wwwroot/a.txt" then some ⟨1, text "a"⟩
  else if path = text "wwwroot/empty.txt" then some ⟨0, []⟩
  else if path = errorResource then some ⟨1, text "x"⟩
  else none

def site : Call := { emptyCall with files := siteFiles }

theorem siteFiles_cases {path : Bytes} {file : File} (h : siteFiles path = some file) :
    (0 : UInt8) ∉ path ∧ file.size = file.content.length ∧ file.content.length < 2 ^ 31 := by
  unfold siteFiles at h
  split at h
  · next hpath =>
      cases h
      rw [hpath]
      decide
  · split at h
    · next hpath =>
        cases h
        rw [hpath]
        decide
    · split at h
      · next hpath =>
          cases h
          rw [hpath]
          decide
      · cases h

theorem regularFiles_site : RegularFiles site.files where
  size h := (siteFiles_cases h).2.1
  small h := (siteFiles_cases h).2.2
  named h := (siteFiles_cases h).1

theorem static_serving_iff_file :
    ∃ resp s', (respond .http site (text "GET /a.txt HTTP/1.0\r\n\r\n")).run mainServer =
        .done resp s' ∧
      Faithful site (parsed .http (text "GET /a.txt HTTP/1.0\r\n\r\n")).path resp := by
  have hpage : site.files errorResource = some ⟨1, text "x"⟩ := by decide
  have hpath : (parsed .http (text "GET /a.txt HTTP/1.0\r\n\r\n")).path =
      text "wwwroot/a.txt" := by decide
  refine (static_serving_iff .http (reachable_mainServer .http) regularFiles_site hpage
    (by decide) (by decide)).mpr ?_
  rw [hpath]
  refine ⟨by decide, fun file hfile => ?_⟩
  obtain rfl : ⟨1, text "a"⟩ = file := Option.some.inj
    ((show site.files (ofCString (text "wwwroot/a.txt")) = _ by decide).symm.trans hfile)
  decide

/-- The empty file is there, and the page for missing files is served. -/
theorem empty_file_not_served :
    ¬ ∀ (demo : Demo) (s : Server), Reachable demo s → ∀ call : Call,
      RegularFiles call.files → ∀ page, call.files errorResource = some page →
      page.content ≠ [] → ∀ request, (parsed demo request).isExec = false →
      (parsed demo request).path ≠ redirResource →
      ∃ resp s', (respond demo call request).run s = .done resp s' ∧
        Faithful call (parsed demo request).path resp := by
  intro h
  obtain ⟨resp, s', hrun, hfaithful⟩ := h .http mainServer (reachable_mainServer .http) site
    regularFiles_site ⟨1, text "x"⟩ (by decide) (by decide)
    (text "GET /empty.txt HTTP/1.0\r\n\r\n") (by decide) (by decide)
  have hfile : site.files (parsed .http (text "GET /empty.txt HTTP/1.0\r\n\r\n")).path =
      some ⟨0, []⟩ := by decide
  rw [Faithful, hfile] at hfaithful
  have hstatus : ((respond .http site (text "GET /empty.txt HTTP/1.0\r\n\r\n")).run
      mainServer).value?.bind HttpResponse.statusCode = some 404 := by decide
  rw [hrun] at hstatus
  exact absurd (hfaithful.status.symm.trans hstatus) (by decide)

end Server

end LinuxAdvance.Http
