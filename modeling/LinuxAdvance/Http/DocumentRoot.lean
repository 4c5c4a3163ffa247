import LinuxAdvance.Foundation.PathWalk
import LinuxAdvance.Http.Query

/-!
# What is read lies below the document root

The path of a resource is `wwwroot` with the target behind it, and nothing looks
at the segments of the target.  Where a resource that is read lies can be told by
counting them.
-/

namespace LinuxAdvance.Http

open LinuxAdvance.Foundation
open LinuxAdvance.Cxx

def segment : Bytes → Segment Bytes
  | [] => .here
  | [46] => .here
  | [46, 46] => .up
  | name => .name name

def segments (path : Bytes) : List (Segment Bytes) :=
  (path.splitOn 47).map segment

/-- What remains of the path without a file system is strictly below `wwwroot`. -/
def Confined (path : Bytes) : Prop := Segment.Below wwwroot (segments path)

/-! ## The request as the peer writes it -/

def firstLine (request : Bytes) : Bytes := ((cut? sep request).map Prod.fst).getD []

def methodOf (request : Bytes) : Bytes := ((words (firstLine request))[0]?).getD []

def targetOf (request : Bytes) : Bytes := ((words (firstLine request))[1]?).getD []

/-- What is behind the first blank line after the request line. -/
def bodyOf (request : Bytes) : Bytes :=
  ((cut? sep request).bind fun parts => (block sep parts.2).2).getD []

/-- What is behind the first question mark of the target of a `get`. -/
def queryOf (method target : Bytes) : Bytes :=
  if strcasecmpEq method (text "get") then ((cut? uriSep target).map Prod.snd).getD [] else []

def HasArguments (request : Bytes) : Prop :=
  queryOf (methodOf request) (targetOf request) ≠ [] ∨ bodyOf request ≠ []

def resourceOf (request : Bytes) : Bytes := uriOf (methodOf request) (targetOf request)

def SpecialTarget (target : Bytes) : Prop :=
  target = text "/redir" ∨ target = text "/404.html"

/-- The segments behind the first slash, with the home page if the target ends in a
slash. -/
def steps (target : Bytes) : List (Segment Bytes) :=
  ((withHomepage target).splitOn 47).tail.map segment

/-- The target starts with a slash, none of its beginnings goes up more often than it
enters a name, and the whole enters more names than it leaves; or it goes up once
to the directory the server runs in, no further, and comes in again through a
segment `wwwroot`, behind which the same holds. -/
def StaysInside (target : Bytes) : Prop :=
  (target.head? = some 47 ∧ Segment.Grounded (steps target) ∧
    0 < Segment.depth (steps target)) ∨
  ∃ out back, steps target = out ++ .name wwwroot :: back ∧
    (∀ before, before <+: out → -1 ≤ Segment.depth before) ∧ Segment.depth out = -1 ∧
    Segment.Grounded back ∧ 0 < Segment.depth back

/-! ## The path of a target -/

theorem wwwroot_eq : wwwroot = [119, 119, 119, 114, 111, 111, 116] := by decide

theorem splitOn_append {pre : Bytes} (hpre : (47 : UInt8) ∉ pre) (s : Bytes) :
    (pre ++ s).splitOn 47 = (s.splitOn 47).modifyHead (pre ++ ·) := by
  obtain ⟨piece, pieces, hs⟩ := List.exists_cons_of_ne_nil (List.splitOn_ne_nil 47 s)
  induction pre with
  | nil => simp [hs]
  | cons b pre ih =>
      rw [List.mem_cons, not_or] at hpre
      have ih := ih hpre.2
      rw [hs] at ih ⊢
      rw [List.splitOn] at ih ⊢
      rw [List.cons_append, List.splitOnP_cons_eq_if_modifyHead, ih]
      simp [Ne.symm hpre.1]

theorem withHomepage_wwwroot (target : Bytes) :
    withHomepage (wwwroot ++ target) = wwwroot ++ withHomepage target := by
  unfold withHomepage
  cases target using List.reverseRecOn with
  | nil => simp [wwwroot_eq]
  | append_singleton target b =>
      rw [← List.append_assoc, List.getLast?_concat, List.getLast?_concat]
      split <;> simp

theorem head?_withHomepage (target : Bytes) :
    (withHomepage target).head? = target.head? := by
  unfold withHomepage
  split
  · next hlast =>
    cases target with
    | nil => cases hlast
    | cons b target => rfl
  · rfl

theorem segments_path (target : Bytes) : ∃ name,
    segments (withHomepage (wwwroot ++ target)) = .name (wwwroot ++ name) :: steps target ∧
      (name = [] ↔ target = [] ∨ target.head? = some 47) := by
  obtain ⟨name, pieces, hs⟩ :=
    List.exists_cons_of_ne_nil (List.splitOn_ne_nil 47 (withHomepage target))
  refine ⟨name, ?_, ?_⟩
  · rw [withHomepage_wwwroot, segments, splitOn_append (by decide), steps, hs]
    simp [segment, wwwroot_eq]
  · have hhead := head?_withHomepage target
    cases target with
    | nil =>
        obtain ⟨rfl, -⟩ := List.cons.inj (hs.symm.trans (by decide : _ = [[]]))
        simp
    | cons b target =>
        obtain ⟨rest, hrest⟩ := List.head?_eq_some_iff.mp hhead
        rw [hrest, List.splitOn, List.splitOnP_cons_eq_if_modifyHead] at hs
        obtain ⟨piece, pieces', hrest'⟩ :=
          List.exists_cons_of_ne_nil (List.splitOnP_ne_nil (· == 47) rest)
        rw [hrest'] at hs
        by_cases hb : b = 47
        · simp_all
        · simp only [beq_iff_eq, hb, if_false, List.modifyHead_cons] at hs
          obtain ⟨rfl, -⟩ := List.cons.inj hs
          simp [hb]

theorem confined_iff (target : Bytes) :
    Confined (withHomepage (wwwroot ++ target)) ↔ StaysInside target := by
  obtain ⟨name, hsegments, hname⟩ := segments_path target
  rw [Confined, hsegments, Segment.below_name_cons_iff, List.append_right_eq_self, hname,
    StaysInside]
  refine or_congr_left ⟨?_, fun h => ⟨.inr h.1, h.2⟩⟩
  rintro ⟨rfl | hslash, hground, hpos⟩
  · exact absurd hpos (by decide)
  · exact ⟨hslash, hground, hpos⟩

theorem special_iff {req : HttpRequest} {target : Bytes}
    (hpath : req.path = withHomepage (wwwroot ++ target)) :
    Server.Special req ↔ SpecialTarget target := by
  have hplain {resource page : Bytes} (hresource : resource = wwwroot ++ page)
      (hlast : page.getLast? ≠ some 47) (hhome : ¬ homepage <:+ resource) :
      req.path = resource ↔ target = page := by
    rw [hpath, hresource, withHomepage_wwwroot, List.append_right_inj]
    unfold withHomepage
    split
    · next hslash =>
      constructor
      · intro h
        refine absurd ⟨wwwroot ++ target, ?_⟩ hhome
        rw [hresource, ← h, List.append_assoc]
      · rintro rfl
        exact absurd hslash hlast
    · rfl
  have hredir : req.path = Server.redirResource ↔ target = text "/redir" :=
    hplain (by decide) (by decide) (by decide)
  have herror : req.path = Server.errorResource ↔ target = text "/404.html" :=
    hplain (by decide) (by decide) (by decide)
  rw [Server.Special, SpecialTarget, hredir, herror]

/-! ## What is parsed -/

theorem words_extract (line : Bytes) :
    (extract line []).1 = ((words line)[0]?).getD [] ∧
      (extract (extract line []).2 []).1 = ((words line)[1]?).getD [] := by
  rcases extract_words line [] with ⟨hwords, hextract⟩ | ⟨word, rest, hextract, hwords⟩
  · rw [hwords, hextract]
    exact ⟨rfl, rfl⟩
  · rw [hwords, hextract]
    refine ⟨rfl, ?_⟩
    rcases extract_words rest [] with ⟨hwords', hextract'⟩ | ⟨word', rest', hextract', hwords'⟩
    · rw [hwords', hextract']
      rfl
    · rw [hwords', hextract']
      rfl

theorem args_appendPath {req : HttpRequest} (hargs : req.args = []) :
    (HttpRequest.appendPath (HttpRequest.splitArgs req)).args =
      queryOf req.reqMethod req.uri := by
  have hlength : uriSep.length = 1 := by decide
  unfold HttpRequest.appendPath HttpRequest.splitArgs queryOf cut?
  split
  · cases findSub? uriSep req.uri <;> simp [hlength]
  · exact hargs

theorem parseReqLine_words {req : HttpRequest} (hmethod : req.reqMethod = [])
    (huri : req.uri = []) (hpath : req.path = wwwroot) (hargs : req.args = []) :
    let method := ((words req.reqLine)[0]?).getD []
    let target := ((words req.reqLine)[1]?).getD []
    (HttpRequest.parseReqLine req).1.path = withHomepage (wwwroot ++ uriOf method target) ∧
      (HttpRequest.parseReqLine req).1.args = queryOf method target := by
  dsimp only
  rw [HttpRequest.parseReqLine]
  split
  · next hempty =>
    rw [hempty, hpath, hargs]
    decide
  · obtain ⟨hfirst, hsecond⟩ := words_extract req.reqLine
    rw [hmethod, huri]
    dsimp only
    rw [← hfirst, ← hsecond, ← hpath]
    split
    · exact ⟨path_appendPath _, args_appendPath hargs⟩
    · exact ⟨path_appendPath _, args_appendPath hargs⟩

theorem words_getOneLine (request : Bytes) :
    words (getOneLine request).1 = words (firstLine request) := by
  unfold firstLine
  cases hcut : cut? sep request with
  | none =>
      rw [getOneLine_of_none hcut]
      rfl
  | some parts =>
      obtain ⟨line, rest⟩ := parts
      rw [getOneLine_of_cut hcut]
      dsimp only
      split
      · next hempty =>
        rw [hempty]
        change words sep = words []
        decide
      · rfl

theorem body_getOneLine (request : Bytes) :
    (block sep (getOneLine request).2).2.getD [] = bodyOf request := by
  unfold bodyOf
  cases hcut : cut? sep request with
  | none =>
      rw [getOneLine_of_none hcut, block_of_none hcut]
      rfl
  | some parts =>
      obtain ⟨line, rest⟩ := parts
      rw [getOneLine_of_cut hcut]
      rfl

namespace Server

theorem parsed_request (demo : Demo) (request : Bytes) :
    (parsed demo request).path = withHomepage (wwwroot ++ resourceOf request) ∧
      ((parsed demo request).isExec = true ↔ HasArguments request) := by
  obtain ⟨cookies, heq⟩ := parsed_eq demo request
  obtain ⟨reqMethod, uri, args, path, suffix, version, hline⟩ := HttpRequest.parseReqLine_eq
    { reqLine := (getOneLine request).1
      reqHeader := headerLines request
      reqText := (block sep (getOneLine request).2).2.getD [] }
  have hwords := @parseReqLine_words
    { reqLine := (getOneLine request).1
      reqHeader := headerLines request
      reqText := (block sep (getOneLine request).2).2.getD [] } rfl rfl rfl rfl
  dsimp only at hwords
  rw [words_getOneLine, hline] at hwords
  rw [heq, hline, resourceOf, methodOf, targetOf, HasArguments, methodOf, targetOf,
    ← body_getOneLine, HttpRequest.isExec]
  refine ⟨hwords.1, ?_⟩
  rw [← hwords.2]
  simp

/-! ## What is read -/

theorem confined_errorResource : Confined errorResource :=
  ⟨.name errorpage, [], by decide⟩

def filesRead (demo : Demo) (call : Call) (request : Bytes) (s : Server) :
    List Bytes :=
  ((respond demo call request).run { s with reads := [] }).state.reads

/-- A request reads its resource, and the error page when that is blank, unless
it has arguments or asks for one of the two special resources. -/
theorem filesRead_eq {demo : Demo} {s : Server} (h : Inv s) (call : Call)
    (request : Bytes) :
    filesRead demo call request s =
      if (parsed demo request).isExec ∨ Special (parsed demo request) then []
      else opened call (parsed demo request).path := by
  have hinv : Inv { s with reads := [] } := ⟨h.handlers, h.sessions⟩
  rw [filesRead, respond]
  by_cases hexec : (parsed demo request).isExec = true
  · rw [if_pos hexec, if_pos (.inl hexec)]
    exact (runHandler_spec demo call _ hinv).1
  · rw [if_neg hexec, (serveResource_spec demo call _ hinv).reads]
    simp [hexec]

theorem forall_mem_opened {P : Bytes → Prop} (herror : P errorResource) (call : Call)
    (path : Bytes) : (∀ p ∈ opened call path, P p) ↔ P path := by
  unfold opened
  split <;> simp [herror]

theorem reads_confined_iff {demo : Demo} {s : Server} (h : Reachable demo s)
    (call : Call) (request : Bytes) :
    (∀ path ∈ filesRead demo call request s, Confined path) ↔
      HasArguments request ∨ SpecialTarget (resourceOf request) ∨
        StaysInside (resourceOf request) := by
  obtain ⟨hpath, hexec⟩ := parsed_request demo request
  rw [filesRead_eq (inv_of_reachable h), ← or_assoc, ← hexec, ← special_iff hpath]
  by_cases hnone : (parsed demo request).isExec = true ∨ Special (parsed demo request)
  · rw [if_pos hnone]
    simp [hnone]
  · rw [if_neg hnone, forall_mem_opened confined_errorResource, hpath, confined_iff,
      or_iff_right hnone]

def upAndDown : Bytes := text "GET /a/../b/../ HTTP/1.0\r\n\r\n"

theorem reads_confined_iff_home :
    text "wwwroot/a/../b/../index.html" ∈ filesRead .http emptyCall upAndDown mainServer ∧
      Confined (text "wwwroot/a/../b/../index.html") := by
  have hread : text "wwwroot/a/../b/../index.html" ∈
      filesRead .http emptyCall upAndDown mainServer := by decide
  have hsteps : steps (resourceOf upAndDown) =
      [.name (text "a"), .up, .name (text "b"), .up, .name homepage] := by decide
  have hground : Segment.Grounded (steps (resourceOf upAndDown)) := by
    rw [hsteps]
    intro before hbefore
    have hmem := (List.mem_inits _ _).mpr hbefore
    clear hbefore
    revert before
    decide
  have hinside : StaysInside (resourceOf upAndDown) :=
    .inl ⟨by decide, hground, by decide⟩
  exact ⟨hread, (reads_confined_iff (reachable_mainServer .http) emptyCall upAndDown).mpr
    (.inr (.inr hinside)) _ hread⟩

theorem dotdot_not_confined :
    ¬ ∀ (demo : Demo) (s : Server), Reachable demo s →
      ∀ (call : Call) (request : Bytes),
        ∀ path ∈ filesRead demo call request s, Confined path := by
  intro h
  obtain ⟨next, rest, hresolve⟩ := h .http mainServer (reachable_mainServer .http)
    emptyCall (text "GET /../Main.cc HTTP/1.0\r\n\r\n") (text "wwwroot/../Main.cc")
    (by decide)
  have hout : Segment.resolve (segments (text "wwwroot/../Main.cc")) =
      [.name (text "Main.cc")] := by decide
  rw [hout] at hresolve
  cases hresolve

end Server

end LinuxAdvance.Http
