import MessageBus.LoginModel
import MessageBus.Transition

/-!
# Whose login a connection carries

A conn server and the auth service, with every connection the server has ever
accepted told apart.  An answer is given to the connection that is at its
position when it is taken from the queue.  That is the connection that asked,
as long as no position is given out again while something for its former
connection is on the way; a restart begins again with the first position.
-/

namespace MessageBus.Conn

/-- A login request that a connection has sent. -/
structure Receipt where
  connection : ℕ
  req : LoginReq
deriving DecidableEq

structure LoginSystem where
  conn : Server
  now : ℕ
  -- what is on the way to and from auth, in the shared-memory queues and on
  -- the bus, each with the request that it goes back to
  requests : List (Receipt × AuthLoginReq)
  responses : List (Receipt × AuthLoginRsp)
  -- for stating properties: the number of connections accepted so far, which
  -- of them was the last at a position, the requests received on them, and
  -- those that auth has accepted
  accepts : ℕ
  connections : UInt32 → ℕ
  received : List Receipt
  accepted : List Receipt

/-- What happens next; `queued` is false when the queue to send to is full. -/
inductive LoginEvent where
  | advance (seconds : ℕ)
  | acceptConn (ready : Bool)
  | releaseConn (connPos : UInt32)
  | loginReq (connPos : UInt32) (req : LoginReq) (queued : Bool)
  | loginCheck (index : ℕ) (query : QueryResult) (queued : Bool)
  | loginRsp (index : ℕ)
  | dealPkg (srcID : ℤ) (body : Body)
  | checkValid
  | restart
deriving DecidableEq

namespace LoginSystem

def start (serverID : ℤ) (gnsCapacity : ℕ) (now : ℕ) : LoginSystem where
  conn := Server.start serverID gnsCapacity
  now := now
  requests := []
  responses := []
  accepts := 0
  connections := fun _ => 0
  received := []
  accepted := []

def step (fuel : ℕ) (system : LoginSystem) : LoginEvent → Option LoginSystem
  | .advance seconds => some { system with now := system.now + seconds }
  | .acceptConn true => do
      let connPos ← system.conn.findFreePos fuel system.conn.nextConnPosCnt
      let conn ← system.conn.acceptConn fuel true
      return { system with
        conn := conn
        accepts := system.accepts + 1
        connections :=
          Function.update system.connections connPos system.accepts }
  | .acceptConn false =>
      (system.conn.acceptConn fuel false).map fun conn =>
        { system with conn := conn }
  | .releaseConn connPos =>
      some { system with
        conn := (system.conn.releaseConn system.now connPos true).1 }
  | .loginReq connPos req queued => do
      let request ← system.conn.processLoginReq connPos req
      let receipt : Receipt := ⟨system.connections connPos, req⟩
      return { system with
        requests := system.requests ++
          if queued then [(receipt, request)] else []
        received := system.received ++ [receipt] }
  | .loginCheck index query queued => do
      let (receipt, request) ← system.requests[index]?
      return { system with
        requests := system.requests.eraseIdx index
        responses := system.responses ++
          if queued then [(receipt, request.answer query)] else []
        accepted := system.accepted ++
          if (request.answer query).ret = 0 then [receipt] else [] }
  | .loginRsp index => do
      let (_, response) ← system.responses[index]?
      return { system with
        conn := (system.conn.dealLoginRsp system.now response).1
        responses := system.responses.eraseIdx index }
  | .dealPkg srcID body =>
      some { system with
        conn := (system.conn.dealPkg system.now srcID body).1 }
  | .checkValid =>
      some { system with conn := system.conn.checkValid system.now }
  | .restart => some { system with conn := system.conn.restart.1 }

/-- A position is given to a new connection only when no request, and no
successful answer, for its former connection is on the way; and a user ID that
auth accepts does not turn into another, smaller one in the `int32` field. -/
def Distinguishable (fuel : ℕ) (system : LoginSystem) : LoginEvent → Prop
  | .acceptConn true =>
      ∀ connPos ∈ system.conn.findFreePos fuel system.conn.nextConnPosCnt,
        (∀ pending ∈ system.requests, pending.2.connPos ≠ connPos) ∧
        ∀ pending ∈ system.responses, pending.2.ret = 0 →
          pending.2.connPos ≠ connPos
  | .loginCheck index query _ =>
      ∀ pending ∈ system.requests[index]?,
        loginCheck query pending.2.passwd = 0 →
        pending.2.userid.toNat < 2 ^ 32 ∨
          2 ^ 31 ≤ pending.2.userid.toNat % 2 ^ 32
  | _ => True

instance {fuel : ℕ} {system : LoginSystem} {event : LoginEvent} :
    Decidable (system.Distinguishable fuel event) :=
  match event with
  | .advance _ => isTrue trivial
  | .acceptConn true => Option.decidableForallMem _
  | .acceptConn false => isTrue trivial
  | .releaseConn _ => isTrue trivial
  | .loginReq _ _ _ => isTrue trivial
  | .loginCheck _ _ _ => Option.decidableForallMem _
  | .loginRsp _ => isTrue trivial
  | .dealPkg _ _ => isTrue trivial
  | .checkValid => isTrue trivial
  | .restart => isTrue trivial

variable {system after : LoginSystem} {fuel : ℕ} {event : LoginEvent}
  {receipt : Receipt} {connPos : UInt32} {conn : Server}

/-! ## The invariant -/

/-- If there is a connection at the position, it is the one that sent the
request. -/
def SentFrom (system : LoginSystem) (receipt : Receipt) (connPos : UInt32) :
    Prop :=
  system.conn.posConnMap connPos ≠ none →
    system.connections connPos = receipt.connection

/-- Auth has accepted the request, and the user ID that comes back is the
request's or a large one. -/
structure Approved (accepted : List Receipt) (receipt : Receipt) : Prop where
  mem : receipt ∈ accepted
  distinct : receipt.req.userid.toNat < 2 ^ 32 ∨
    2 ^ 31 ≤ receipt.req.userid.toNat % 2 ^ 32

structure Bound (system : LoginSystem) : Prop where
  accepted_received : system.accepted ⊆ system.received
  requests : ∀ pending ∈ system.requests,
    pending.1 ∈ system.received ∧
      pending.2.userid = pending.1.req.userid ∧
      system.SentFrom pending.1 pending.2.connPos
  responses : ∀ pending ∈ system.responses, pending.2.ret = 0 →
    Approved system.accepted pending.1 ∧
      pending.2.userid = narrow pending.1.req.userid ∧
      system.SentFrom pending.1 pending.2.connPos
  authenticated : ∀ connPos conn,
    system.conn.posConnMap connPos = some conn →
    conn.connType = .connAuth →
    ∃ receipt, Approved system.accepted receipt ∧
      receipt.connection = system.connections connPos ∧
      conn.userID = widen (narrow receipt.req.userid)

theorem start_bound (serverID : ℤ) (gnsCapacity : ℕ) (now : ℕ) :
    (start serverID gnsCapacity now).Bound := by
  constructor
  · simp [start]
  · simp [start]
  · simp [start]
  · intro connPos conn hconn
    simp [start, Server.start] at hconn

theorem SentFrom.of_onlyCloses
    (hsent : system.SentFrom receipt connPos)
    (hcloses : Server.OnlyCloses system.conn conn) :
    ({ system with conn := conn } : LoginSystem).SentFrom receipt connPos := by
  intro hopen
  rcases Option.ne_none_iff_exists'.mp hopen with ⟨found, hfound⟩
  apply hsent
  rw [hcloses connPos found hfound]
  simp

theorem Bound.onlyCloses
    (hbound : system.Bound) (hcloses : Server.OnlyCloses system.conn conn) :
    ({ system with conn := conn } : LoginSystem).Bound := by
  constructor
  · exact hbound.accepted_received
  · intro pending hpending
    rcases hbound.requests pending hpending with ⟨hreceived, huser, hsent⟩
    exact ⟨hreceived, huser, hsent.of_onlyCloses hcloses⟩
  · intro pending hpending hret
    rcases hbound.responses pending hpending hret with ⟨happroved, huser, hsent⟩
    exact ⟨happroved, huser, hsent.of_onlyCloses hcloses⟩
  · intro connPos found hfound hauth
    exact hbound.authenticated connPos found (hcloses connPos found hfound)
      hauth

theorem Bound.acceptConn
    (hbound : system.Bound)
    (hallowed : system.Distinguishable fuel (.acceptConn true))
    (hstep : system.step fuel (.acceptConn true) = some after) :
    after.Bound := by
  simp only [step, Option.bind_eq_bind, Option.pure_def] at hstep
  rcases Option.bind_eq_some_iff.mp hstep with ⟨found, hfound, hrest⟩
  rcases Option.bind_eq_some_iff.mp hrest with ⟨conn, haccept, hafter⟩
  rw [← Option.some.inj hafter]
  have hfree := hallowed found hfound
  -- what is on the way is for a position that keeps its connection
  have hsent : ∀ receipt connPos, connPos ≠ found →
      system.SentFrom receipt connPos →
      conn.posConnMap connPos ≠ none →
      Function.update system.connections found system.accepts connPos =
        receipt.connection := by
    intro receipt connPos hne hold hopen
    rcases Option.ne_none_iff_exists'.mp hopen with ⟨info, hinfo⟩
    rw [Function.update_of_ne hne]
    apply hold
    rcases Server.acceptConn_posConnMap hfound haccept hinfo with
      ⟨hpos, -⟩ | ⟨-, hbefore⟩
    · exact (hne hpos).elim
    · rw [hbefore]
      simp
  constructor
  · exact hbound.accepted_received
  · intro pending hpending
    rcases hbound.requests pending hpending with ⟨hreceived, huser, hold⟩
    exact ⟨hreceived, huser,
      hsent _ _ (hfree.1 pending hpending) hold⟩
  · intro pending hpending hret
    rcases hbound.responses pending hpending hret with ⟨happroved, huser, hold⟩
    exact ⟨happroved, huser, hsent _ _ (hfree.2 pending hpending hret) hold⟩
  · intro connPos info hinfo hauth
    rcases Server.acceptConn_posConnMap hfound haccept hinfo with
      ⟨-, hnew⟩ | ⟨hne, hbefore⟩
    · rw [hnew] at hauth
      simp at hauth
    · rcases hbound.authenticated connPos info hbefore hauth with
        ⟨receipt, happroved, hconnection, huser⟩
      refine ⟨receipt, happroved, ?_, huser⟩
      dsimp only
      rw [Function.update_of_ne hne]
      exact hconnection

theorem Bound.loginReq
    {req : LoginReq} {queued : Bool} (hbound : system.Bound)
    (hstep : system.step fuel (.loginReq connPos req queued) = some after) :
    after.Bound := by
  simp only [step, Option.bind_eq_bind, Option.pure_def] at hstep
  rcases Option.bind_eq_some_iff.mp hstep with ⟨request, hrequest, hafter⟩
  rcases Option.map_eq_some_iff.mp hrequest with ⟨info, hinfo, rfl⟩
  rw [← Option.some.inj hafter]
  constructor
  · exact fun receipt hmem =>
      List.mem_append_left _ (hbound.accepted_received hmem)
  · intro pending hpending
    rcases List.mem_append.mp hpending with hold | hnew
    · rcases hbound.requests pending hold with ⟨hreceived, huser, hsent⟩
      exact ⟨List.mem_append_left _ hreceived, huser, hsent⟩
    · split_ifs at hnew
      · rw [List.mem_singleton.mp hnew]
        exact ⟨List.mem_append_right _ (List.mem_singleton_self _), rfl,
          fun _ => rfl⟩
      · simp at hnew
  · exact hbound.responses
  · exact hbound.authenticated

theorem Bound.loginCheck
    {index : ℕ} {query : QueryResult} {queued : Bool}
    (hbound : system.Bound)
    (hallowed : system.Distinguishable fuel (.loginCheck index query queued))
    (hstep : system.step fuel (.loginCheck index query queued) =
      some after) : after.Bound := by
  simp only [step, Option.bind_eq_bind, Option.pure_def] at hstep
  rcases Option.bind_eq_some_iff.mp hstep with
    ⟨⟨receipt, request⟩, hrequest, hafter⟩
  rw [← Option.some.inj hafter]
  rcases hbound.requests _ (List.mem_of_getElem? hrequest) with
    ⟨hreceived, huser, hsent⟩
  have hmore : ∀ other, Approved system.accepted other →
      Approved (system.accepted ++
        if (request.answer query).ret = 0 then [receipt] else []) other :=
    fun other happroved =>
      ⟨List.mem_append_left _ happroved.mem, happroved.distinct⟩
  constructor
  · intro other hother
    rcases List.mem_append.mp hother with hold | hnew
    · exact hbound.accepted_received hold
    · split_ifs at hnew
      · rw [List.mem_singleton.mp hnew]
        exact hreceived
      · simp at hnew
  · intro pending hpending
    exact hbound.requests pending (List.mem_of_mem_eraseIdx hpending)
  · intro pending hpending hret
    rcases List.mem_append.mp hpending with hold | hnew
    · rcases hbound.responses pending hold hret with
        ⟨happroved, hanswer, hfrom⟩
      exact ⟨hmore _ happroved, hanswer, hfrom⟩
    · split_ifs at hnew
      · rw [List.mem_singleton.mp hnew] at hret ⊢
        have hdistinct := hallowed _ hrequest hret
        dsimp only at huser hdistinct
        rw [huser] at hdistinct
        refine ⟨⟨?_, hdistinct⟩, ?_, hsent⟩
        · dsimp only
          rw [if_pos hret]
          exact List.mem_append_right _ (List.mem_singleton_self _)
        · change narrow request.userid = _
          rw [huser]
      · simp at hnew
  · intro pos found hfound hauth
    rcases hbound.authenticated pos found hfound hauth with
      ⟨other, happroved, hconnection, hwide⟩
    exact ⟨other, hmore _ happroved, hconnection, hwide⟩

theorem Bound.loginRsp
    {index : ℕ} (hbound : system.Bound)
    (hstep : system.step fuel (.loginRsp index) = some after) :
    after.Bound := by
  simp only [step, Option.bind_eq_bind, Option.pure_def] at hstep
  rcases Option.bind_eq_some_iff.mp hstep with
    ⟨⟨receipt, response⟩, hresponse, hafter⟩
  rw [← Option.some.inj hafter]
  have hconn := fun pos info => @Server.authLoginRsp_posConnMap system.conn
    system.now response.connPos pos (widen response.userid) info response.ret
  -- a position in use afterwards was in use before
  have hsent : ∀ other connPos, system.SentFrom other connPos →
      (system.conn.dealLoginRsp system.now response).1.posConnMap connPos ≠
        none →
      system.connections connPos = other.connection := by
    intro other connPos hold hopen
    rcases Option.ne_none_iff_exists'.mp hopen with ⟨info, hinfo⟩
    apply hold
    rcases hconn connPos info hinfo with hbefore | ⟨-, -, hbefore, -⟩
    · rw [hbefore]
      simp
    · exact hbefore
  constructor
  · exact hbound.accepted_received
  · intro pending hpending
    rcases hbound.requests pending hpending with ⟨hreceived, huser, hold⟩
    exact ⟨hreceived, huser, hsent _ _ hold⟩
  · intro pending hpending hret
    rcases hbound.responses pending (List.mem_of_mem_eraseIdx hpending) hret
      with ⟨happroved, huser, hold⟩
    exact ⟨happroved, huser, hsent _ _ hold⟩
  · intro pos info hinfo hauth
    rcases hconn pos info hinfo with hbefore | ⟨hret, rfl, hopen, rfl⟩
    · exact hbound.authenticated pos info hbefore hauth
    · rcases hbound.responses _ (List.mem_of_getElem? hresponse) hret with
        ⟨happroved, huser, hfrom⟩
      refine ⟨receipt, happroved, (hfrom hopen).symm, ?_⟩
      dsimp only at huser ⊢
      rw [huser]

theorem Bound.step
    (hbound : system.Bound) (hallowed : system.Distinguishable fuel event)
    (hstep : system.step fuel event = some after) : after.Bound := by
  cases event with
  | advance seconds =>
      rw [← Option.some.inj hstep]
      exact ⟨hbound.accepted_received, hbound.requests, hbound.responses,
        hbound.authenticated⟩
  | acceptConn ready =>
      cases ready with
      | true => exact hbound.acceptConn hallowed hstep
      | false =>
          rcases Option.map_eq_some_iff.mp hstep with ⟨conn, haccept, rfl⟩
          exact hbound.onlyCloses (Server.onlyCloses_acceptConn haccept)
  | releaseConn connPos =>
      rw [← Option.some.inj hstep]
      exact hbound.onlyCloses
        (Server.onlyCloses_releaseConn system.conn system.now connPos true)
  | loginReq connPos req queued => exact hbound.loginReq hstep
  | loginCheck index query queued => exact hbound.loginCheck hallowed hstep
  | loginRsp index => exact hbound.loginRsp hstep
  | dealPkg srcID body =>
      rw [← Option.some.inj hstep]
      exact hbound.onlyCloses
        (Server.onlyCloses_dealPkg system.conn system.now srcID body)
  | checkValid =>
      rw [← Option.some.inj hstep]
      exact hbound.onlyCloses fun _ _ hconn => hconn
  | restart =>
      rw [← Option.some.inj hstep]
      apply hbound.onlyCloses
      intro connPos conn hconn
      simp [Server.restart] at hconn

/-! ## The result -/

/-- Every authenticated connection of a user below `2 ^ 31` has itself sent a
request for that user which auth has accepted. -/
def LoginsBound (system : LoginSystem) : Prop :=
  ∀ connPos conn, system.conn.posConnMap connPos = some conn →
    conn.connType = .connAuth → conn.userID.toNat < 2 ^ 31 →
    ∃ receipt ∈ system.accepted, receipt ∈ system.received ∧
      receipt.connection = system.connections connPos ∧
      receipt.req.userid = conn.userID

/-- In every run in which positions and users stay distinguishable, whatever
is delayed, closed or restarted, authenticated connections are those that
logged in. -/
theorem logins_bound_to_connection
    (fuel : ℕ) (serverID : ℤ) (gnsCapacity : ℕ) (now : ℕ)
    (system : LoginSystem)
    (hreach : Transition.Reaches (step fuel) (Distinguishable fuel)
      (start serverID gnsCapacity now) system) :
    system.LoginsBound := by
  have hbound : system.Bound := by
    apply hreach.invariant Bound (start_bound serverID gnsCapacity now)
    intro before after event hbefore hallowed hstep
    exact hbefore.step hallowed hstep
  intro connPos conn hconn hauth hsmall
  rcases hbound.authenticated connPos conn hconn hauth with
    ⟨receipt, happroved, hconnection, huser⟩
  refine ⟨receipt, happroved.mem,
    hbound.accepted_received happroved.mem, hconnection, ?_⟩
  rw [huser] at hsmall ⊢
  have hlower := toNat_widen_narrow hsmall
  apply UInt64.toNat_inj.mp
  rw [hlower]
  rcases happroved.distinct with hshort | hlarge
  · exact (Nat.mod_eq_of_lt hshort).symm
  · omega

/-- The server restarts when nothing is on the way, and the first position is
given out again. -/
theorem logins_bound_to_connection_restarted :
    ∃ system, Transition.Reaches (step 1) (Distinguishable 1)
        (start 1 3 10) system ∧
      system.conn.posConnMap 501 = some ⟨.connAuth, 8⟩ ∧
      system.LoginsBound := by
  rcases Option.map_eq_some_iff.mp
    (show (Transition.replay (step 1) (Distinguishable 1) (start 1 3 10)
        [.acceptConn true, .loginReq 501 ⟨7, "first", 0⟩ true,
          .loginCheck 0 (.record (some "first")) true, .loginRsp 0, .restart,
          .acceptConn true, .loginReq 501 ⟨8, "second", 0⟩ true,
          .loginCheck 0 (.record (some "second")) true, .loginRsp 0]).map
        (fun system => system.conn.posConnMap 501) =
        some (some ⟨.connAuth, 8⟩)
      by decide) with ⟨system, hreplay, hconn⟩
  have hreach := Transition.reaches_of_replay hreplay
  exact ⟨system, hreach, hconn,
    logins_bound_to_connection 1 1 3 10 system hreach⟩

/-- The server restarts while the answer to user 7 is in the queue.  The next
client gets the position of the first one, and with it the answer. -/
theorem login_bound_to_next_connection :
    ∃ system, Transition.Reaches (step 1) (fun _ _ => True)
        (start 1 3 10) system ∧ ¬ system.LoginsBound := by
  rcases Option.map_eq_some_iff.mp
    (show (Transition.replay (step 1) (fun _ _ => True) (start 1 3 10)
        [.acceptConn true, .loginReq 501 ⟨7, "first", 0⟩ true,
          .loginCheck 0 (.record (some "first")) true, .restart,
          .acceptConn true, .loginRsp 0]).map
        (fun system => (system.conn.posConnMap 501, system.connections 501,
          system.received)) =
        some (some ⟨.connAuth, 7⟩, 1, [⟨0, ⟨7, "first", 0⟩⟩])
      by decide) with ⟨system, hreplay, hvalues⟩
  simp only [Prod.mk.injEq] at hvalues
  rcases hvalues with ⟨hconn, hconnection, hreceived⟩
  refine ⟨system, Transition.reaches_of_replay hreplay, ?_⟩
  intro hbound
  rcases hbound 501 _ hconn rfl (by decide) with
    ⟨receipt, -, hmem, hsame, -⟩
  rw [hreceived, List.mem_singleton] at hmem
  rw [hmem, hconnection] at hsame
  simp at hsame

end LoginSystem

end MessageBus.Conn
