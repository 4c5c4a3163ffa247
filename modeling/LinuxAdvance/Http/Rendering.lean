import LinuxAdvance.Http.Header

/-!
# Writing and reading messages

`DeSerialize` on a request line, header lines and a body that were put together
with the separators of the protocol, and on the text of a response: `Serialize`
puts it together the same way.
-/

namespace LinuxAdvance.Http

open LinuxAdvance.Foundation
open LinuxAdvance.Cxx

def render (line : Bytes) (headers : List Bytes) (body : Bytes) : Bytes :=
  line ++ sep ++ (headers.flatMap (· ++ sep) ++ sep ++ body)

theorem sep_eq : sep = [13, 10] := by decide

theorem reqHeaderSep_eq : reqHeaderSep = [58, 32] := by decide

theorem cut?_sep {line : Bytes} (h : ¬ sep <:+: line) (rest : Bytes) :
    cut? sep (line ++ sep ++ rest) = some (line, rest) := by
  rw [sep_eq] at h ⊢
  exact cut?_pair (by decide) h rest

theorem block_sep {lines : List Bytes} (h : ∀ line ∈ lines, line ≠ [] ∧ ¬ sep <:+: line)
    (rest : Bytes) :
    block sep (lines.flatMap (· ++ sep) ++ sep ++ rest) = (lines, some rest) := by
  rw [sep_eq] at h ⊢
  exact block_lines (by decide) h rest

theorem ne_nil_of_field {line : Bytes} (h : reqHeaderSep <:+: line) : line ≠ [] := by
  rintro rfl
  rw [List.infix_nil] at h
  exact absurd h (by decide)

/-! ## Requests -/

theorem deSerialize_render (demo : Demo) {line : Bytes} {headers : List Bytes} (body : Bytes)
    (hline : line ≠ []) (hsep : ¬ sep <:+: line)
    (hheaders : ∀ header ∈ headers, reqHeaderSep <:+: header ∧ ¬ sep <:+: header) :
    Holds demo (HttpRequest.deSerialize demo {} (render line headers body)).1 line headers
      body := by
  have hcut := cut?_sep hsep (headers.flatMap (· ++ sep) ++ sep ++ body)
  have hblock := block_sep (fun header hmem =>
    ⟨ne_nil_of_field (hheaders header hmem).1, (hheaders header hmem).2⟩) body
  have hfirst : getOneLine (render line headers body) =
      (line, headers.flatMap (· ++ sep) ++ sep ++ body) := by
    rw [render, getOneLine_of_cut hcut, if_neg hline]
  have hholds := Server.holds_parsed demo (render line headers body)
  rw [headerLines_eq, hfirst, hblock] at hholds
  exact hholds

/-- `DeSerialize` finds the line, the headers and the body that were put
together; a name has the value of the last header with it. -/
theorem request_round_trip (demo : Demo) {line : Bytes} {headers : List Bytes} (body : Bytes)
    (hline : line ≠ []) (hsep : ¬ sep <:+: line)
    (hheaders : ∀ header ∈ headers, reqHeaderSep <:+: header ∧ ¬ sep <:+: header) :
    let req := (HttpRequest.deSerialize demo {} (render line headers body)).1
    req.reqLine = line ∧ req.reqHeader = headers ∧ req.reqText = body ∧
      (∀ name, req.headerskv.lookup name = lastValue name (fields headers)) ∧
      (demo = .cookieSession →
        req.sessionid = (lastValue cookie (fields headers)).getD []) := by
  have hholds := deSerialize_render demo body hline hsep hheaders
  have hall : wellFormedPart headers = headers :=
    Server.wellFormedPart_eq fun header hmem => (hheaders header hmem).1
  refine ⟨hholds.reqLine, hholds.reqHeader, hholds.reqText, fun name => ?_, fun hdemo => ?_⟩
  · rw [hholds.lookup, hall]
  · rw [hholds.sessionid hdemo, hall]

/-- A carriage return at the end of a line, a line feed at the front of the next
one, and a body that looks like headers. -/
theorem request_round_trip_overlap :
    let req := (HttpRequest.deSerialize .cookieSession {}
      (render (text "GET / HTTP/1.0\r") [text "\na: b: c\r", text "Cookie: 7"]
        (text "x: y\r\n\r\nz"))).1
    req.reqHeader = [text "\na: b: c\r", text "Cookie: 7"] ∧
      req.headerskv.lookup (text "\na") = some (text "b: c\r") ∧
      req.sessionid = text "7" := by
  have hline : text "GET / HTTP/1.0\r" ≠ [] ∧ ¬ sep <:+: text "GET / HTTP/1.0\r" := by decide
  have hheaders : ∀ header ∈ [text "\na: b: c\r", text "Cookie: 7"],
      reqHeaderSep <:+: header ∧ ¬ sep <:+: header := by decide
  obtain ⟨-, hheader, -, hlookup, hsession⟩ := request_round_trip .cookieSession
    (text "x: y\r\n\r\nz") hline.1 hline.2 hheaders
  refine ⟨hheader, ?_, ?_⟩
  · rw [hlookup]
    decide
  · rw [hsession rfl]
    decide

/-! ## Responses -/

namespace HttpResponse

/-- A response from the calls of `ADDStatusLine`, `ADDHeader` and `ADDText`. -/
def built (code : Int32) (desc : Bytes) (headers : List (Bytes × Bytes)) (body : Bytes) :
    HttpResponse :=
  (headers.foldl (fun resp e => resp.addHeader e.1 e.2)
    (({} : HttpResponse).addStatusLine code desc)).addText body

def statusLine (code : Int32) (desc : Bytes) : Bytes :=
  httpVersion ++ space ++ intToString code.toInt ++ space ++ desc

def headerLine (e : Bytes × Bytes) : Bytes := e.1 ++ reqHeaderSep ++ e.2

theorem foldl_addHeader (resp : HttpResponse) (headers : List (Bytes × Bytes)) :
    headers.foldl (fun resp e => resp.addHeader e.1 e.2) resp =
      { resp with headerskv := UnorderedMap.insertAll resp.headerskv headers } := by
  induction headers generalizing resp with
  | nil => rfl
  | cons e headers ih =>
      rw [List.foldl_cons, ih]
      rfl

theorem built_eq (code : Int32) (desc : Bytes) (headers : List (Bytes × Bytes)) (body : Bytes) :
    built code desc headers body =
      { statusCode := some code, desc, respText := body
        headerskv := UnorderedMap.insertAll ∅ headers } := by
  rw [built, foldl_addHeader]
  rfl

theorem serialize_eq {resp : HttpResponse} {code : Int32} (hversion : resp.version = httpVersion)
    (hcode : resp.statusCode = some code) (hheader : resp.respHeader = []) (junk : Int32)
    (order : UnorderedMap.Order resp.headerskv) :
    (resp.serialize junk order).2 =
      render (statusLine code resp.desc) (order.val.map headerLine) resp.respText := by
  have hvalue : resp.statusValue junk = code := by rw [statusValue, hcode]; rfl
  have hline : headerLine = fun e => e.1 ++ reqHeaderSep ++ e.2 := rfl
  simp only [serialize, render, hversion, hheader, hvalue, List.nil_append, statusLine, hline,
    List.append_assoc]

/-! ### No separator in what is written -/

theorem not_sep_statusLine (code : Int32) {desc : Bytes} (hdesc : ¬ sep <:+: desc) :
    ¬ sep <:+: statusLine code desc := by
  have hfront : (13 : UInt8) ∉ httpVersion ++ space ++ intToString code.toInt ++ space := by
    simp only [List.mem_append, not_or]
    refine ⟨⟨⟨by decide, by decide⟩, fun hmem => ?_⟩, by decide⟩
    rcases mem_intToString hmem with h | h
    · exact absurd h (by decide)
    · exact absurd h (by decide)
  rw [sep_eq] at hdesc ⊢
  rw [statusLine, pair_infix_append_iff, not_or, not_or]
  refine ⟨fun h => hfront (h.subset (by simp)), hdesc, fun h => hfront ?_⟩
  exact List.mem_of_getLast? h.1

theorem not_sep_headerLine {e : Bytes × Bytes} (hkey : ¬ sep <:+: e.1) (hvalue : ¬ sep <:+: e.2) :
    ¬ sep <:+: headerLine e := by
  rw [sep_eq] at hkey hvalue ⊢
  have hcolon : ¬ [13, 10] <:+: reqHeaderSep := by decide
  have hfirst : ¬ [13, 10] <:+: e.1 ++ reqHeaderSep := by
    rw [pair_infix_append_iff, not_or, not_or]
    refine ⟨hkey, hcolon, fun h => ?_⟩
    exact absurd h.2 (by decide)
  rw [headerLine, pair_infix_append_iff, not_or, not_or]
  refine ⟨hfirst, hvalue, fun h => ?_⟩
  simp [reqHeaderSep_eq, List.getLast?_append] at h

theorem field?_headerLine {e : Bytes × Bytes} (hkey : ¬ reqHeaderSep <:+: e.1) :
    field? (headerLine e) = some e := by
  rw [field?, headerLine]
  rw [reqHeaderSep_eq] at hkey ⊢
  exact cut?_pair (by decide) hkey e.2

theorem fields_headerLines {headers : List (Bytes × Bytes)}
    (h : ∀ e ∈ headers, ¬ reqHeaderSep <:+: e.1) : fields (headers.map headerLine) = headers := by
  induction headers with
  | nil => rfl
  | cons e headers ih =>
      simp only [List.forall_mem_cons] at h
      rw [List.map_cons, fields, List.filterMap_cons_some (field?_headerLine h.1)]
      exact congrArg (e :: ·) (ih h.2)

/-! ### Reading a response -/

theorem lookup_of_mem_order {m : UnorderedMap Bytes Bytes} (order : UnorderedMap.Order m)
    {e : Bytes × Bytes} (he : e ∈ order.val) : m.lookup e.1 = some e.2 := by
  obtain ⟨entry, hentry, rfl⟩ := List.mem_map.mp (order.property.subset he)
  exact AList.mem_lookup_iff.mpr hentry

theorem deSerialize_serialize (demo : Demo) {resp : HttpResponse} {code : Int32}
    (hversion : resp.version = httpVersion) (hcode : resp.statusCode = some code)
    (hheader : resp.respHeader = []) (hdesc : ¬ sep <:+: resp.desc)
    (hheaders : ∀ key value, resp.headerskv.lookup key = some value →
      ¬ reqHeaderSep <:+: key ∧ ¬ sep <:+: key ∧ ¬ sep <:+: value)
    (junk : Int32) (order : UnorderedMap.Order resp.headerskv) :
    let req := (HttpRequest.deSerialize demo {} (resp.serialize junk order).2).1
    req.reqLine = statusLine code resp.desc ∧ req.reqText = resp.respText ∧
      ∀ key, req.headerskv.lookup key = resp.headerskv.lookup key := by
  have hstatus : statusLine code resp.desc ≠ [] := by simp [statusLine, intToString_ne_nil]
  have hkeys : ∀ e ∈ order.val,
      ¬ reqHeaderSep <:+: e.1 ∧ ¬ sep <:+: e.1 ∧ ¬ sep <:+: e.2 := fun e he =>
    hheaders e.1 e.2 (lookup_of_mem_order order he)
  have hlines : ∀ header ∈ order.val.map headerLine,
      reqHeaderSep <:+: header ∧ ¬ sep <:+: header := by
    simp only [List.forall_mem_map]
    intro e he
    exact ⟨⟨e.1, e.2, rfl⟩, not_sep_headerLine (hkeys e he).2.1 (hkeys e he).2.2⟩
  rw [serialize_eq hversion hcode hheader]
  have hholds := deSerialize_render demo resp.respText hstatus (not_sep_statusLine code hdesc) hlines
  refine ⟨hholds.reqLine, hholds.reqText, fun key => ?_⟩
  rw [hholds.lookup, Server.wellFormedPart_eq fun header hmem => (hlines header hmem).1,
    fields_headerLines fun e he => (hkeys e he).1]
  exact UnorderedMap.lastValue_order resp.headerskv order key

/-- What the first `Serialize` of a response writes is read back: the status
line, the last value of each key, and the body, whatever the order in which the
map is gone through. -/
theorem response_round_trip (demo : Demo) (code : Int32) {desc : Bytes}
    {headers : List (Bytes × Bytes)} (body : Bytes) (hdesc : ¬ sep <:+: desc)
    (hheaders : ∀ e ∈ headers,
      ¬ reqHeaderSep <:+: e.1 ∧ ¬ sep <:+: e.1 ∧ ¬ sep <:+: e.2)
    (junk : Int32) (order : UnorderedMap.Order (built code desc headers body).headerskv) :
    let resp := built code desc headers body
    let req := (HttpRequest.deSerialize demo {} (resp.serialize junk order).2).1
    req.reqLine = statusLine code desc ∧ req.reqText = body ∧
      ∀ key, req.headerskv.lookup key = resp.headerskv.lookup key ∧
        resp.headerskv.lookup key = lastValue key headers := by
  have hbuilt := built_eq code desc headers body
  have hmap (key : Bytes) : (built code desc headers body).headerskv.lookup key =
      lastValue key headers := by
    rw [hbuilt]
    simp [UnorderedMap.lookup_insertAll]
  have hvalues : ∀ key value, (built code desc headers body).headerskv.lookup key = some value →
      ¬ reqHeaderSep <:+: key ∧ ¬ sep <:+: key ∧ ¬ sep <:+: value := by
    intro key value hvalue
    rw [hmap] at hvalue
    exact hheaders (key, value) (mem_of_lastValue hvalue)
  obtain ⟨hline, hbody, hlookup⟩ := deSerialize_serialize demo (by rw [hbuilt]) (by rw [hbuilt])
    (by rw [hbuilt]) (by rwa [hbuilt]) hvalues junk order
  refine ⟨hline.trans (by rw [hbuilt]), hbody.trans (by rw [hbuilt]), fun key => ?_⟩
  exact ⟨hlookup key, hmap key⟩

def trickyHeaders : List (Bytes × Bytes) :=
  [(text "a:", text "1"), ([], text "x"), (text "a:", text "\n2\r")]

/-- A key that ends in a colon, an empty key, a key written twice, and a body
with a blank line of its own. -/
theorem response_round_trip_tricky :
    let resp := built 200 (text "OK") trickyHeaders (text "b: c\r\n\r\n")
    let req := (HttpRequest.deSerialize .cookieSession {}
      (resp.serialize 0 ⟨_, List.Perm.refl _⟩).2).1
    req.reqLine = text "HTTP/1.0 200 OK" ∧ req.reqText = text "b: c\r\n\r\n" ∧
      req.headerskv.lookup (text "a:") = some (text "\n2\r") := by
  have hdesc : ¬ sep <:+: text "OK" := by decide
  have hheaders : ∀ e ∈ trickyHeaders,
      ¬ reqHeaderSep <:+: e.1 ∧ ¬ sep <:+: e.1 ∧ ¬ sep <:+: e.2 := by decide
  obtain ⟨hline, hbody, hlookup⟩ := response_round_trip .cookieSession 200
    (text "b: c\r\n\r\n") hdesc hheaders 0 ⟨_, List.Perm.refl _⟩
  refine ⟨hline.trans (by decide), hbody, ?_⟩
  rw [(hlookup _).1, (hlookup _).2]
  decide

end HttpResponse

end LinuxAdvance.Http
