import LinuxAdvance.Http.Service

/-!
# The header of a request

What `DeSerialize` collects are the lines before the empty one, and `_headerskv`
holds the last value of each name as far as `ParseReqHeader` read: to the first
line that has no `": "`.
-/

namespace LinuxAdvance.Http

open LinuxAdvance.Foundation
open LinuxAdvance.Cxx

def field? (line : Bytes) : Option (Bytes × Bytes) := cut? reqHeaderSep line

def fields (lines : List Bytes) : List (Bytes × Bytes) := lines.filterMap field?

/-- The lines before the first one without a name. -/
def wellFormedPart (lines : List Bytes) : List Bytes :=
  lines.takeWhile fun line => (field? line).isSome

def cookie : Bytes := text "Cookie"

def headerLines (request : Bytes) : List Bytes :=
  match cut? sep request with
  | none => []
  | some (_, rest) => (block sep rest).1

theorem field?_isSome_iff {line : Bytes} : (field? line).isSome ↔ reqHeaderSep <:+: line :=
  isSome_cut?_iff

/-! ## The lines of a request -/

theorem getOneLine_of_none {reqstr : Bytes} (h : cut? sep reqstr = none) :
    getOneLine reqstr = ([], reqstr) := by
  rw [getOneLine, Option.map_eq_none_iff.mp h]

theorem getOneLine_of_cut {reqstr line rest : Bytes} (h : cut? sep reqstr = some (line, rest)) :
    getOneLine reqstr = (if line = [] then sep else line, rest) := by
  obtain ⟨pos, hpos, hcut⟩ := Option.map_eq_some_iff.mp h
  obtain ⟨rfl, rfl⟩ := Prod.mk.inj hcut
  rw [getOneLine, hpos]
  rfl

namespace HttpRequest

theorem readHeader_block {n : Nat} {reqstr : Bytes} (hn : reqstr.length < n)
    (req : HttpRequest) :
    (readHeader n req reqstr).1 =
      { req with
        reqHeader := req.reqHeader ++ (block sep reqstr).1
        reqText := (block sep reqstr).2.getD req.reqText } := by
  induction n generalizing req reqstr with
  | zero => omega
  | succ n ih =>
      rw [readHeader]
      dsimp only
      cases hcut : cut? sep reqstr with
      | none =>
          rw [getOneLine_of_none hcut, block_of_none hcut]
          simp
      | some cut =>
          obtain ⟨line, rest⟩ := cut
          rw [getOneLine_of_cut hcut]
          dsimp only
          by_cases hline : line = []
          · subst hline
            have hsep : sep ≠ [] := by decide
            simp [block_of_blank hcut, hsep]
          · have hne : line ≠ sep := by
              rintro rfl
              exact hline (eq_nil_of_prefix_of_cut? hcut (List.prefix_refl sep))
            have hlt := length_lt_of_cut? hcut hline
            rw [if_neg hline, if_neg hline, if_neg hne, ih (by omega), block_of_line hcut hline]
            simp

/-! ## The parsers -/

theorem parseReqLine_eq (req : HttpRequest) :
    ∃ reqMethod uri args path suffix version, (parseReqLine req).1 =
      { req with reqMethod, uri, args, path, suffix, version } := by
  have hsplit : ∀ req : HttpRequest, ∃ args uri,
      splitArgs req = { req with args, uri } := by
    intro req
    unfold splitArgs
    split
    · split
      · exact ⟨_, _, rfl⟩
      · exact ⟨_, _, rfl⟩
    · exact ⟨_, _, rfl⟩
  rw [parseReqLine]
  split
  · exact ⟨_, _, _, _, _, _, rfl⟩
  · dsimp only
    obtain ⟨args, uri, heq⟩ := hsplit { req with
      reqMethod := (extract req.reqLine req.reqMethod).1
      uri := (extract (extract req.reqLine req.reqMethod).2 req.uri).1
      version := (extract (extract (extract req.reqLine req.reqMethod).2 req.uri).2
        req.version).1 }
    rw [heq]
    split
    · exact ⟨_, _, _, _, _, _, rfl⟩
    · exact ⟨_, _, _, _, _, _, rfl⟩

theorem fields_cons_of_some {line : Bytes} {field : Bytes × Bytes} (h : field? line = some field)
    (lines : List Bytes) :
    fields (wellFormedPart (line :: lines)) = field :: fields (wellFormedPart lines) := by
  simp [fields, wellFormedPart, h]

theorem fields_cons_of_none {line : Bytes} (h : field? line = none) (lines : List Bytes) :
    fields (wellFormedPart (line :: lines)) = [] := by
  simp [fields, wellFormedPart, h]

theorem parseHeaders_fields (demo : Demo) (lines : List Bytes) (req : HttpRequest) :
    ∃ cookies, (parseHeaders demo lines req).1 =
      { req with
        headerskv := UnorderedMap.insertAll req.headerskv (fields (wellFormedPart lines))
        cookies
        sessionid := if demo = .cookieSession then
            (lastValue cookie (fields (wellFormedPart lines))).getD req.sessionid
          else req.sessionid } := by
  induction lines generalizing req with
  | nil =>
      exact ⟨req.cookies, by
        simp [parseHeaders, fields, wellFormedPart, UnorderedMap.insertAll]⟩
  | cons line lines ih =>
      rw [parseHeaders]
      cases hpos : findSub? reqHeaderSep line with
      | none =>
          have hnone : field? line = none := by rw [field?, cut?, hpos]; rfl
          exact ⟨req.cookies, by simp [fields_cons_of_none hnone, UnorderedMap.insertAll]⟩
      | some pos =>
          have hsome : field? line =
              some (line.take pos, line.drop (pos + reqHeaderSep.length)) := by
            rw [field?, cut?, hpos]
            rfl
          rw [fields_cons_of_some hsome, lastValue_cons]
          dsimp only
          split
          · next hcookie =>
              obtain ⟨hdemo, hkey⟩ := hcookie
              obtain ⟨cookies, heq⟩ := ih { req with
                headerskv := req.headerskv.insert (line.take pos)
                  (line.drop (pos + reqHeaderSep.length))
                sessionid := line.drop (pos + reqHeaderSep.length)
                cookies := req.cookies ++ [line.drop (pos + reqHeaderSep.length)] }
              refine ⟨cookies, ?_⟩
              rw [heq, if_pos hdemo, if_pos hdemo, if_pos (by rw [cookie, hkey])]
              cases lastValue cookie (fields (wellFormedPart lines)) <;> rfl
          · next hcookie =>
              obtain ⟨cookies, heq⟩ := ih { req with
                headerskv := req.headerskv.insert (line.take pos)
                  (line.drop (pos + reqHeaderSep.length)) }
              refine ⟨cookies, ?_⟩
              rw [heq]
              by_cases hdemo : demo = .cookieSession
              · have hkey : cookie ≠ line.take pos := fun h => hcookie ⟨hdemo, h.symm⟩
                rw [if_pos hdemo, if_pos hdemo, if_neg hkey, Option.or_none]
                rfl
              · rw [if_neg hdemo, if_neg hdemo]
                rfl

end HttpRequest

/-! ## What is kept of a request -/

theorem headerLines_eq (request : Bytes) :
    headerLines request = (block sep (getOneLine request).2).1 := by
  rw [headerLines]
  cases hcut : cut? sep request with
  | none => rw [getOneLine_of_none hcut, block_of_none hcut]
  | some cut =>
      obtain ⟨line, rest⟩ := cut
      rw [getOneLine_of_cut hcut]

/-- The fields of a request after `DeSerialize`, from its lines. -/
structure Holds (demo : Demo) (req : HttpRequest) (line : Bytes) (lines : List Bytes)
    (body : Bytes) : Prop where
  reqLine : req.reqLine = line
  reqHeader : req.reqHeader = lines
  reqText : req.reqText = body
  lookup : ∀ name, req.headerskv.lookup name = lastValue name (fields (wellFormedPart lines))
  sessionid : demo = .cookieSession →
    req.sessionid = (lastValue cookie (fields (wellFormedPart lines))).getD []

namespace Server

/-- The request line is parsed with the header and the text in their fields, and
the header after it; neither parser touches the fields of the other. -/
theorem parsed_eq (demo : Demo) (request : Bytes) :
    ∃ cookies, parsed demo request =
      { (HttpRequest.parseReqLine
          { reqLine := (getOneLine request).1
            reqHeader := headerLines request
            reqText := (block sep (getOneLine request).2).2.getD [] }).1 with
        headerskv := UnorderedMap.insertAll ∅ (fields (wellFormedPart (headerLines request)))
        cookies
        sessionid := if demo = .cookieSession then
            (lastValue cookie (fields (wellFormedPart (headerLines request)))).getD []
          else [] } := by
  obtain ⟨reqMethod, uri, args, path, suffix, version, hline⟩ := HttpRequest.parseReqLine_eq
    { reqLine := (getOneLine request).1
      reqHeader := headerLines request
      reqText := (block sep (getOneLine request).2).2.getD [] }
  have hheader : (HttpRequest.readHeader ((getOneLine request).2.length + 1)
      { reqLine := (getOneLine request).1 } (getOneLine request).2).1 =
      { reqLine := (getOneLine request).1
        reqHeader := headerLines request
        reqText := (block sep (getOneLine request).2).2.getD [] } := by
    rw [HttpRequest.readHeader_block (Nat.lt_succ_self _), headerLines_eq]
    rfl
  obtain ⟨cookies, hfields⟩ := HttpRequest.parseHeaders_fields demo (headerLines request)
    { reqLine := (getOneLine request).1
      reqHeader := headerLines request
      reqText := (block sep (getOneLine request).2).2.getD []
      reqMethod, uri, args, path, suffix, version }
  refine ⟨cookies, ?_⟩
  unfold parsed HttpRequest.deSerialize HttpRequest.parseReqHeader
  dsimp only
  rw [hheader, hline, hfields]

theorem holds_parsed (demo : Demo) (request : Bytes) :
    Holds demo (parsed demo request) (getOneLine request).1 (headerLines request)
      ((block sep (getOneLine request).2).2.getD []) := by
  obtain ⟨cookies, heq⟩ := parsed_eq demo request
  obtain ⟨reqMethod, uri, args, path, suffix, version, hline⟩ := HttpRequest.parseReqLine_eq
    { reqLine := (getOneLine request).1
      reqHeader := headerLines request
      reqText := (block sep (getOneLine request).2).2.getD [] }
  rw [heq, hline]
  constructor
  · rfl
  · rfl
  · rfl
  · intro name
    rw [UnorderedMap.lookup_insertAll]
    simp
  · intro hdemo
    rw [if_pos hdemo]

/-! ## Lost header lines -/

/-- Every line collected has its name and, for that name, the value of the last
such line; the session id is that of the last cookie. -/
structure KeepsLines (demo : Demo) (request : Bytes) : Prop where
  represented : ∀ line ∈ (parsed demo request).reqHeader, ∃ name value,
    field? line = some (name, value) ∧
      (parsed demo request).headerskv.lookup name =
        lastValue name (fields (parsed demo request).reqHeader)
  session : demo = .cookieSession → ∀ value,
    lastValue cookie (fields (parsed demo request).reqHeader) = some value →
      (parsed demo request).sessionid = value

/-- The same for the lines that have a name. -/
structure KeepsFields (demo : Demo) (request : Bytes) : Prop where
  represented : ∀ name value,
    lastValue name (fields (parsed demo request).reqHeader) = some value →
      (parsed demo request).headerskv.lookup name = some value
  session : demo = .cookieSession → ∀ value,
    lastValue cookie (fields (parsed demo request).reqHeader) = some value →
      (parsed demo request).sessionid = value

theorem wellFormedPart_eq {lines : List Bytes} (h : ∀ line ∈ lines, reqHeaderSep <:+: line) :
    wellFormedPart lines = lines := by
  rw [wellFormedPart, List.takeWhile_eq_self_iff]
  exact fun line hline => field?_isSome_iff.mpr (h line hline)

theorem keepsLines_iff (demo : Demo) (request : Bytes) :
    KeepsLines demo request ↔ ∀ line ∈ headerLines request, reqHeaderSep <:+: line := by
  have hholds := holds_parsed demo request
  constructor
  · intro h line hline
    rw [← hholds.reqHeader] at hline
    obtain ⟨name, value, hfield, -⟩ := h.represented line hline
    rw [← field?_isSome_iff, hfield]
    rfl
  · intro h
    have hall := wellFormedPart_eq h
    constructor
    · intro line hline
      rw [hholds.reqHeader] at hline
      obtain ⟨⟨name, value⟩, hfield⟩ :=
        Option.isSome_iff_exists.mp (field?_isSome_iff.mpr (h line hline))
      refine ⟨name, value, hfield, ?_⟩
      rw [hholds.lookup, hholds.reqHeader, hall]
    · intro hdemo value hvalue
      rw [hholds.reqHeader] at hvalue
      rw [hholds.sessionid hdemo, hall, hvalue]
      rfl

theorem keepsFields_iff (demo : Demo) (request : Bytes) :
    KeepsFields demo request ↔ ∀ name value,
      lastValue name (fields (headerLines request)) = some value →
        lastValue name (fields (wellFormedPart (headerLines request))) = some value := by
  have hholds := holds_parsed demo request
  constructor
  · intro h name value hvalue
    rw [← hholds.lookup]
    exact h.represented name value (by rwa [hholds.reqHeader])
  · intro h
    constructor
    · intro name value hvalue
      rw [hholds.reqHeader] at hvalue
      rw [hholds.lookup]
      exact h name value hvalue
    · intro hdemo value hvalue
      rw [hholds.reqHeader] at hvalue
      rw [hholds.sessionid hdemo, h cookie value hvalue]
      rfl

theorem headers_kept_iff (demo : Demo) (request : Bytes) :
    (KeepsLines demo request ↔ ∀ line ∈ headerLines request, reqHeaderSep <:+: line) ∧
      (KeepsFields demo request ↔ ∀ name value,
        lastValue name (fields (headerLines request)) = some value →
          lastValue name (fields (wellFormedPart (headerLines request))) = some value) :=
  ⟨keepsLines_iff demo request, keepsFields_iff demo request⟩

def spoiledRequest : Bytes := text "GET / HTTP/1.0\r\nbad\r\nCookie: 7\r\n\r\n"

/-- The cookie behind a line without a colon is not seen. -/
theorem cookie_lost :
    (parsed .cookieSession spoiledRequest).reqHeader = [text "bad", text "Cookie: 7"] ∧
      ¬ KeepsLines .cookieSession spoiledRequest ∧
      ¬ KeepsFields .cookieSession spoiledRequest := by
  have hcookie : lastValue cookie
      (fields (parsed .cookieSession spoiledRequest).reqHeader) = some (text "7") := by decide
  have hsession : (parsed .cookieSession spoiledRequest).sessionid ≠ text "7" := by decide
  exact ⟨by decide, fun h => hsession (h.session rfl _ hcookie),
    fun h => hsession (h.session rfl _ hcookie)⟩

end Server

end LinuxAdvance.Http
