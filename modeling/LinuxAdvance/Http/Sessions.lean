import LinuxAdvance.Http.History

/-!
# Sessions

A session is never removed and an id never changes hands, so an id that names a
session names it for good.  What a client is given is another matter: a request
that carries an id is not given a new one, and `AddSession` hands out the id it
has computed whether or not it was free.
-/

namespace LinuxAdvance.Http

open LinuxAdvance.Foundation
open LinuxAdvance.Cxx
open Relation

namespace Server

/-! ## `AddSession` -/

def withSession (s : Server) (id : Bytes) (sptr : SessionPtr) : Server :=
  { s with sessions := s.sessions.insert id ((s.sessions.lookup id).getD sptr) }

theorem run_addSession (call : Call) (sptr : SessionPtr) (s : Server) :
    (addSession call sptr).run s =
      .done (sessionId call) (s.withSession (sessionId call) sptr) := rfl

theorem getSession_withSession (s : Server) (id : Bytes) (sptr : SessionPtr) :
    getSession (s.withSession id sptr) id = some ((getSession s id).getD sptr) :=
  AList.lookup_insert s.sessions

theorem getSession_withSession_ne (s : Server) {id id' : Bytes} (h : id' ≠ id)
    (sptr : SessionPtr) : getSession (s.withSession id sptr) id' = getSession s id' :=
  AList.lookup_insert_ne h

theorem sessionId_inj {call call' : Call} :
    sessionId call = sessionId call' ↔ randnum call = randnum call' := by
  constructor
  · intro h
    exact UInt32.toNat_inj.mp (natToString_injective h)
  · intro h
    rw [sessionId, sessionId, h]

def addSessions : List (Call × SessionPtr) → Proc Fault Server (List Bytes)
  | [] => return []
  | (call, sptr) :: calls => do
      let id ← addSession call sptr
      let ids ← addSessions calls
      return id :: ids

theorem run_addSessions_cons (call : Call) (sptr : SessionPtr)
    (calls : List (Call × SessionPtr)) (s : Server) :
    (addSessions ((call, sptr) :: calls)).run s =
      (addSessions calls >>= fun ids => pure (sessionId call :: ids)).run
        (s.withSession (sessionId call) sptr) := rfl

theorem addSessions_ids (calls : List (Call × SessionPtr)) (s : Server) :
    ∃ s', (addSessions calls).run s =
      .done (calls.map fun call => sessionId call.1) s' := by
  induction calls generalizing s with
  | nil => exact ⟨s, rfl⟩
  | cons call calls ih =>
      obtain ⟨s', hrun⟩ := ih (s.withSession (sessionId call.1) call.2)
      refine ⟨s', ?_⟩
      rw [run_addSessions_cons, Proc.run_bind_done hrun]
      rfl

theorem addSessions_other {calls : List (Call × SessionPtr)} {s s' : Server}
    {ids : List Bytes} (hrun : (addSessions calls).run s = .done ids s') {id : Bytes}
    (hid : ∀ call ∈ calls, id ≠ sessionId call.1) : getSession s' id = getSession s id := by
  induction calls generalizing s ids with
  | nil =>
      cases hrun
      rfl
  | cons call calls ih =>
      rw [run_addSessions_cons, Proc.run_bind_eq_done] at hrun
      obtain ⟨ids', s₁, hrest, hdone⟩ := hrun
      cases hdone
      rw [ih hrest fun c hc => hid c (List.mem_cons_of_mem _ hc),
        getSession_withSession_ne s (hid call (by simp))]

theorem addSessions_own {calls : List (Call × SessionPtr)} {s s' : Server}
    {ids : List Bytes} (hrun : (addSessions calls).run s = .done ids s')
    (hnodup : (calls.map fun call => sessionId call.1).Nodup)
    (hfree : ∀ call ∈ calls, getSession s (sessionId call.1) = none) :
    List.Forall₂ (fun id call => getSession s' id = some call.2) ids calls := by
  induction calls generalizing s ids with
  | nil =>
      cases hrun
      exact .nil
  | cons call calls ih =>
      rw [run_addSessions_cons, Proc.run_bind_eq_done] at hrun
      obtain ⟨ids', s₁, hrest, hdone⟩ := hrun
      cases hdone
      rw [List.map_cons, List.nodup_cons] at hnodup
      have hother : ∀ c ∈ calls, sessionId c.1 ≠ sessionId call.1 := fun c hc heq =>
        hnodup.1 (heq ▸ List.mem_map_of_mem hc)
      refine .cons ?_ (ih hrest hnodup.2 fun c hc => ?_)
      · rw [addSessions_other hrest fun c hc => (hother c hc).symm,
          getSession_withSession, hfree call (by simp)]
        rfl
      · rw [getSession_withSession_ne s (hother c hc)]
        exact hfree c (List.mem_cons_of_mem _ hc)

/-- The ids are all different, and each yields the session it was made for. -/
def IdsIdentify (calls : List (Call × SessionPtr)) (s : Server) : Prop :=
  ∃ ids s', (addSessions calls).run s = .done ids s' ∧ ids.Nodup ∧
    List.Forall₂ (fun id call => getSession s' id = some call.2) ids calls

theorem ids_identify_iff (calls : List (Call × SessionPtr)) {s : Server}
    (hempty : s.sessions = ∅) :
    IdsIdentify calls s ↔ (calls.map fun call => randnum call.1).Nodup := by
  have hnodup : (calls.map fun call => sessionId call.1).Nodup ↔
      (calls.map fun call => randnum call.1).Nodup := by
    rw [List.Nodup, List.pairwise_map, List.Nodup, List.pairwise_map]
    simp only [ne_eq, sessionId_inj]
  obtain ⟨s', hrun⟩ := addSessions_ids calls s
  constructor
  · rintro ⟨ids, s'', hrun', hids, -⟩
    cases hrun.symm.trans hrun'
    exact hnodup.mp hids
  · intro h
    refine ⟨_, s', hrun, hnodup.mpr h, addSessions_own hrun (hnodup.mpr h) fun c _ => ?_⟩
    rw [getSession, hempty, AList.lookup_empty]

theorem ids_identify_iff_two :
    IdsIdentify [(emptyCall, 0), ({ emptyCall with rand := 7 }, 1)] mainServer ↔
      [randnum emptyCall, randnum { emptyCall with rand := 7 }].Nodup :=
  ids_identify_iff _ rfl

/-- One second later the random number is smaller by one. -/
theorem id_handed_out_twice :
    ¬ ∀ calls : List (Call × SessionPtr), IdsIdentify calls mainServer := by
  intro h
  obtain ⟨ids, s', hrun, hnodup, -⟩ :=
    h [(emptyCall, 0), ({ emptyCall with rand := 0, now := 1 }, 1)]
  cases hrun
  revert hnodup
  decide

/-! ## Logging in -/

def Live (s : Server) (id : Bytes) : Prop := getSession s id ≠ none

theorem Live.withSession {s : Server} {id : Bytes} (h : Live s id) (id' : Bytes)
    (sptr : SessionPtr) : Live (s.withSession id' sptr) id := by
  by_cases hid : id = id'
  · subst hid
    rw [Live, getSession_withSession]
    exact Option.some_ne_none _
  · rwa [Live, getSession_withSession_ne s hid]

theorem Live.change {s s' : Server} (h : Change s s') {id : Bytes} (hlive : Live s id) :
    Live s' id := by
  cases h with
  | session session id' => exact hlive.withSession id' s.objects.length
  | mimeType suffix => exact hlive
  | desc code => exact hlive
  | func resource => exact hlive
  | read path => exact hlive
  | number => exact hlive

theorem Live.history {demo : Demo} {s s' : Server} {id : Bytes} (hlive : Live s id)
    (h : ReflTransGen (Served demo) s s') : Live s' id :=
  keeps_history (I := (Live · id)) (fun _ _ hchange hlive => hlive.change hchange) h hlive

theorem runHandler_registered {call : Call} {req : HttpRequest} {f : Handler}
    {s s' : Server} {resp : HttpResponse}
    (hf : s.funcs.lookup req.path = some (some f))
    (hrun : (runHandler .cookieSession call req).run s = .done resp s') :
    if req.sessionid = [] then
      ∃ id, Live s' id ∧ resp =
        (f call.outside req.getters).addHeader (text "Set-Cookie") (proveSession id)
    else s' = s ∧ resp = f call.outside req.getters := by
  rw [runHandler, Proc.run_bind_done (funcOf_run hf)] at hrun
  dsimp only at hrun
  split
  · next hid =>
      rw [if_pos ⟨rfl, hid⟩, Proc.run_bind_eq_done] at hrun
      obtain ⟨number, s₁, -, hrun⟩ := hrun
      rw [Proc.run_bind_eq_done] at hrun
      obtain ⟨sptr, s₂, -, hrun⟩ := hrun
      rw [Proc.run_bind_done (run_addSession call sptr s₂)] at hrun
      cases hrun
      refine ⟨sessionId call, ?_, rfl⟩
      rw [Live, getSession_withSession]
      exact Option.some_ne_none _
  · next hid =>
      rw [if_neg fun h => hid h.2] at hrun
      cases hrun
      exact ⟨rfl, rfl⟩

def bytesOf (call : Call) (resp : HttpResponse) : Bytes :=
  (resp.serialize call.junk (call.order resp.headerskv)).2

/-- `id` is what the client of an answered login has: the id in `Set-Cookie`,
which the service adds to the handler's response if the request has no id, and
the id of the request otherwise. -/
def ClientHolds (f : Handler) (call : Call) (req : HttpRequest) (response id : Bytes) :
    Prop :=
  if req.sessionid = [] then
    response = bytesOf call
      ((f call.outside req.getters).addHeader (text "Set-Cookie") (proveSession id))
  else response = bytesOf call (f call.outside req.getters) ∧ id = req.sessionid

/-- The id names a session, now and after any further requests. -/
def StaysLive (s : Server) (id : Bytes) : Prop :=
  ∀ s', ReflTransGen (Served .cookieSession) s s' → Live s' id

theorem login_leaves_session_iff {call : Call} {request response : Bytes} {f : Handler}
    {s s' : Server} (hexec : (parsed .cookieSession request).isExec = true)
    (hf : s.funcs.lookup (parsed .cookieSession request).path = some (some f))
    (hrun : (handlerHttpService .cookieSession call request).run s =
      .done response s') :
    (∃ id, ClientHolds f call (parsed .cookieSession request) response id ∧
      StaysLive s' id) ↔
      (parsed .cookieSession request).sessionid = [] ∨
        Live s (parsed .cookieSession request).sessionid := by
  rw [handlerHttpService, respond, if_pos hexec, Proc.run_bind_eq_done] at hrun
  obtain ⟨resp, s₁, hhandler, hdone⟩ := hrun
  cases hdone
  have hregistered := runHandler_registered hf hhandler
  unfold ClientHolds
  split at hregistered
  · next hid =>
      obtain ⟨id, hlive, rfl⟩ := hregistered
      refine iff_of_true ⟨id, ?_, fun _ => hlive.history⟩ (.inl hid)
      rw [if_pos hid]
      rfl
  · next hid =>
      obtain ⟨rfl, rfl⟩ := hregistered
      simp only [hid, false_or]
      constructor
      · rintro ⟨id, ⟨-, rfl⟩, hstays⟩
        exact hstays _ .refl
      · intro hlive
        exact ⟨_, ⟨rfl, rfl⟩, fun _ => hlive.history⟩

def loginRequest : Bytes := text "POST /login HTTP/1.0\r\n\r\nname=xp"

def forgedLogin : Bytes := text "POST /login HTTP/1.0\r\nCookie: 1\r\n\r\nname=xp"

theorem mainServer_login {request : Bytes}
    (hpath : (parsed .cookieSession request).path = wwwroot ++ pathSep ++ text "login") :
    mainServer.funcs.lookup (parsed .cookieSession request).path = some (some login) := by
  rw [hpath, mainServer, addHandler, AList.lookup_insert]

theorem login_leaves_session_iff_main :
    ∃ response s', (handlerHttpService .cookieSession emptyCall loginRequest).run
        mainServer = .done response s' ∧
      ∃ id, ClientHolds login emptyCall (parsed .cookieSession loginRequest) response id ∧
        StaysLive s' id := by
  obtain ⟨response, hrun⟩ := Outcome.exists_done_of_isDone
    (o := (handlerHttpService .cookieSession emptyCall loginRequest).run mainServer)
    (by decide)
  refine ⟨response, _, hrun, ?_⟩
  exact (login_leaves_session_iff (by decide) (mainServer_login (by decide)) hrun).mpr
    (.inl (by decide))

/-- The service has no session `1`, and sends no other. -/
theorem forged_cookie_not_live :
    ¬ ∀ (s s' : Server), Reachable .cookieSession s →
      ∀ (call : Call) (request response : Bytes) (f : Handler),
        (parsed .cookieSession request).isExec = true →
        s.funcs.lookup (parsed .cookieSession request).path = some (some f) →
        (handlerHttpService .cookieSession call request).run s = .done response s' →
        ∃ id, ClientHolds f call (parsed .cookieSession request) response id ∧
          StaysLive s' id := by
  intro h
  obtain ⟨response, hrun⟩ := Outcome.exists_done_of_isDone
    (o := (handlerHttpService .cookieSession emptyCall forgedLogin).run mainServer)
    (by decide)
  obtain ⟨id, hholds, hstays⟩ := h mainServer _ (reachable_mainServer .cookieSession)
    emptyCall forgedLogin response login (by decide) (mainServer_login (by decide)) hrun
  rw [ClientHolds, if_neg (by decide)] at hholds
  have hlive := hstays _ .refl
  rw [hholds.2] at hlive
  exact hlive (by decide)

end Server

end LinuxAdvance.Http
