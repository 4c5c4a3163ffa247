import LinuxAdvance.Http.Answering
import LinuxAdvance.Http.Rendering

/-!
# The query and the resource

`ParseReqLine` cuts the target at its first question mark for the method `get`
only.  For any other method the query stays in the path.
-/

namespace LinuxAdvance.Http

open LinuxAdvance.Foundation
open LinuxAdvance.Cxx

/-- No blank that `>>` would stop at. -/
def Solid (s : Bytes) : Prop := ∀ b ∈ s, isSpace b = false

instance (s : Bytes) : Decidable (Solid s) :=
  decidable_of_iff (s.all (!isSpace ·) = true) (by simp [Solid])

def requestLine (method target version : Bytes) : Bytes :=
  method ++ space ++ target ++ space ++ version

def uriOf (method target : Bytes) : Bytes :=
  if strcasecmpEq method (text "get") then
    match findSub? uriSep target with
    | some pos => target.take pos
    | none => target
  else target

def withHomepage (path : Bytes) : Bytes :=
  if path.getLast? = some 47 then path ++ homepage else path

/-! ## The words of the request line -/

theorem space_eq : space = [32] := by decide

theorem uriSep_eq : uriSep = [63] := by decide

theorem extract_word {word : Bytes} (hword : Solid word) (hne : word ≠ []) (rest s : Bytes) :
    extract (word ++ space ++ rest) s = (word, space ++ rest) := by
  obtain ⟨b, bs, rfl⟩ := List.exists_cons_of_ne_nil hne
  have hb : isSpace b = false := hword b (by simp)
  have hall : ∀ c ∈ b :: bs, (!isSpace c) = true := fun c hc => by simp [hword c hc]
  have hstart : (b :: bs ++ space ++ rest).dropWhile isSpace = b :: (bs ++ space ++ rest) := by
    rw [List.cons_append, List.cons_append, List.dropWhile_cons_of_neg (by simp [hb])]
  have hsplit : b :: (bs ++ space ++ rest) = b :: bs ++ (space ++ rest) := by simp
  rw [extract, hstart]
  dsimp only
  rw [hsplit, List.takeWhile_append_of_pos hall, List.dropWhile_append_of_pos hall, space_eq]
  simp [isSpace]

theorem extract_blank (stream s : Bytes) : extract (space ++ stream) s = extract stream s := by
  rw [extract, extract, space_eq, List.singleton_append,
    List.dropWhile_cons_of_pos (by decide)]

theorem not_sep_solid {s : Bytes} (hs : ∀ b ∈ s, isSpace b = false ∨ b = 32) : ¬ sep <:+: s := by
  rw [sep_eq]
  intro h
  rcases hs 13 (h.subset (by simp)) with h | h
  · exact absurd h (by decide)
  · exact absurd h (by decide)

/-! ## The path of a request -/

theorem path_appendPath (req : HttpRequest) :
    (HttpRequest.appendPath (HttpRequest.splitArgs req)).path =
      withHomepage (req.path ++ uriOf req.reqMethod req.uri) := by
  unfold HttpRequest.appendPath HttpRequest.splitArgs uriOf withHomepage
  split
  · cases findSub? uriSep req.uri <;> rfl
  · rfl

theorem path_parseReqLine {req : HttpRequest} {method target version : Bytes}
    (hmethod : Solid method) (hmethod' : method ≠ []) (htarget : Solid target)
    (htarget' : target ≠ []) (hline : req.reqLine = requestLine method target version) :
    (HttpRequest.parseReqLine req).1.path =
      withHomepage (req.path ++ uriOf method target) := by
  have hfirst : extract req.reqLine req.reqMethod =
      (method, space ++ (target ++ space ++ version)) := by
    have hsplit : req.reqLine = method ++ space ++ (target ++ space ++ version) := by
      simp [hline, requestLine]
    rw [hsplit, extract_word hmethod hmethod']
  have hsecond (s : Bytes) : extract (space ++ (target ++ space ++ version)) s =
      (target, space ++ version) := by
    rw [extract_blank, extract_word htarget htarget']
  have hne : req.reqLine ≠ [] := by simp [hline, requestLine, hmethod']
  rw [HttpRequest.parseReqLine, if_neg hne, hfirst]
  dsimp only
  rw [hsecond]
  dsimp only
  split
  · exact path_appendPath _
  · exact path_appendPath _

namespace Server

theorem path_parsed (demo : Demo) {method target version : Bytes} (hmethod : Solid method)
    (hmethod' : method ≠ []) (htarget : Solid target) (htarget' : target ≠ [])
    (hversion : Solid version) (rest : Bytes) :
    (parsed demo (requestLine method target version ++ sep ++ rest)).path =
      withHomepage (wwwroot ++ uriOf method target) := by
  have hblanks : ∀ b ∈ requestLine method target version, isSpace b = false ∨ b = 32 := by
    intro b hb
    simp only [requestLine, space_eq, List.mem_append, List.mem_singleton] at hb
    rcases hb with (((hb | hb) | hb) | hb) | hb
    · exact .inl (hmethod b hb)
    · exact .inr hb
    · exact .inl (htarget b hb)
    · exact .inr hb
    · exact .inl (hversion b hb)
  have hne : requestLine method target version ≠ [] := by simp [requestLine, hmethod']
  obtain ⟨cookies, heq⟩ := parsed_eq demo (requestLine method target version ++ sep ++ rest)
  rw [heq, getOneLine_of_cut (cut?_sep (not_sep_solid hblanks) rest), if_neg hne]
  exact path_parseReqLine hmethod hmethod' htarget htarget' rfl

/-! ## With and without a query -/

theorem uriOf_query {method p : Bytes} (hp : (63 : UInt8) ∉ p) (q : Bytes) :
    uriOf method (p ++ uriSep ++ q) =
      if strcasecmpEq method (text "get") then p else p ++ uriSep ++ q := by
  rw [uriOf, uriSep_eq, findSub?_append hp]
  simp

theorem uriOf_plain {method p : Bytes} (hp : (63 : UInt8) ∉ p) : uriOf method p = p := by
  rw [uriOf, uriSep_eq, findSub?_eq_none_of_notMem hp]
  simp

theorem withHomepage_query_ne (p q : Bytes) :
    withHomepage (wwwroot ++ (p ++ uriSep ++ q)) ≠ withHomepage (wwwroot ++ p) := by
  have hwith : ∀ path, ∃ page, withHomepage path = path ++ page ∧ page.head? ≠ some 63 := by
    intro path
    unfold withHomepage
    split
    · exact ⟨homepage, rfl, by decide⟩
    · exact ⟨[], by simp, by simp⟩
  obtain ⟨page, hpage, -⟩ := hwith (wwwroot ++ (p ++ uriSep ++ q))
  obtain ⟨page', hpage', hhead⟩ := hwith (wwwroot ++ p)
  rw [hpage, hpage']
  intro h
  have hrest : uriSep ++ q ++ page = page' := by simpa using h
  rw [← hrest, uriSep_eq] at hhead
  exact hhead rfl

/-- The method is `get`, in letters of either case. -/
def IsGet (method : Bytes) : Prop := strcasecmpEq method (text "get") = true

instance (method : Bytes) : Decidable (IsGet method) :=
  inferInstanceAs (Decidable (_ = true))

/-- For `get` the resource is that of the target without its query, so that the
same handlers are found; for any other method it never is. -/
theorem resource_without_query_iff (demo : Demo) {method p q version : Bytes}
    (hmethod : method ≠ [] ∧ Solid method) (hp : p ≠ [] ∧ Solid p ∧ (63 : UInt8) ∉ p)
    (hq : Solid q) (hversion : Solid version) (rest : Bytes) :
    let withQuery := parsed demo (requestLine method (p ++ uriSep ++ q) version ++ sep ++ rest)
    let without := parsed demo (requestLine method p version ++ sep ++ rest)
    (withQuery.path = without.path ∧
        ∀ s : Server, s.funcs.lookup withQuery.path = s.funcs.lookup without.path) ↔
      IsGet method := by
  have htarget : Solid (p ++ uriSep ++ q) := by
    intro b hb
    simp only [uriSep_eq, List.mem_append, List.mem_singleton] at hb
    rcases hb with (hb | rfl) | hb
    · exact hp.2.1 b hb
    · decide
    · exact hq b hb
  dsimp only
  rw [path_parsed demo hmethod.2 hmethod.1 htarget (by simp [hp.1]) hversion rest,
    path_parsed demo hmethod.2 hmethod.1 hp.2.1 hp.1 hversion rest, uriOf_query hp.2.2,
    uriOf_plain hp.2.2]
  by_cases hget : IsGet method
  · have huri : (if strcasecmpEq method (text "get") then p else p ++ uriSep ++ q) = p :=
      if_pos hget
    rw [huri]
    simp [hget]
  · have huri : (if strcasecmpEq method (text "get") then p else p ++ uriSep ++ q) =
        p ++ uriSep ++ q := if_neg hget
    rw [huri]
    simp only [hget, iff_false, not_and]
    exact fun h => absurd h (withHomepage_query_ne p q)

theorem resource_without_query_iff_login :
    (parsed .http (requestLine (text "gEt") (text "/login" ++ uriSep ++ text "name=xp")
        (text "HTTP/1.0") ++ sep ++ sep)).path = text "wwwroot/login" ∧
      (mainServer.funcs.lookup (text "wwwroot/login")).isSome := by
  have hmethod : text "gEt" ≠ [] ∧ Solid (text "gEt") := by decide
  have hp : text "/login" ≠ [] ∧ Solid (text "/login") ∧ (63 : UInt8) ∉ text "/login" := by decide
  have hq : Solid (text "name=xp") := by decide
  have hversion : Solid (text "HTTP/1.0") := by decide
  have hsame := (resource_without_query_iff .http hmethod hp hq hversion sep).mpr (by decide)
  exact ⟨hsame.1.trans (by decide), by decide⟩

/-- A `POST` with a query goes to another resource, for which no handler is
registered; and a target that is nothing but a query is no target without it. -/
theorem query_of_post_kept :
    (parsed .http (text "POST /login?a HTTP/1.0\r\n\r\nb")).path ≠
        (parsed .http (text "POST /login HTTP/1.0\r\n\r\nb")).path ∧
      (mainServer.funcs.lookup
        (parsed .http (text "POST /login HTTP/1.0\r\n\r\nb")).path).isSome ∧
      (mainServer.funcs.lookup
        (parsed .http (text "POST /login?a HTTP/1.0\r\n\r\nb")).path).isNone ∧
      (parsed .http (text "GET ?a HTTP/1.0\r\n\r\n")).path ≠
        (parsed .http (text "GET  HTTP/1.0\r\n\r\n")).path := by
  decide

end Server

end LinuxAdvance.Http
