import MessageBus.ConnConsistency

/-!
# A server that only listens

To a server that hosts no session of a user, the notices about that user are
a register that the newest notice wins, in whatever order they arrive.
-/

namespace MessageBus.Conn

/-- An entry of a `Cmd_LoginNotice` (`active`) or of a `Cmd_Disconnect`
(`unactive`). -/
structure Notice where
  status : GnsUserStatus
  data : LoginData
deriving DecidableEq

def Notice.info (notice : Notice) : ShmGnsInfo where
  userID := notice.data.userID
  serverID := notice.data.serverID
  connPos := notice.data.connPos
  status := notice.status
  lastActiveTime := notice.data.time

namespace Server

variable {server : Server} {now : ℕ} {notice newest : Notice}
  {info : ShmGnsInfo} {userID : UInt64}

def handle (server : Server) (now : ℕ) (notice : Notice) : Server :=
  match notice.status with
  | .active => server.loginEntry now notice.data
  | .unactive => server.disconnectEntry now notice.data

/-- The notices arrive one after the other, each at its own time. -/
def observe (server : Server) (deliveries : List (ℕ × Notice)) : Server :=
  deliveries.foldl (fun server delivery => server.handle delivery.1 delivery.2)
    server

/-! ## One notice -/

theorem handle_serverID :
    (server.handle now notice).serverID = server.serverID := by
  unfold handle
  split
  · exact (onlyUser_loginEntry server now notice.data).serverID_eq
  · exact (onlyUser_disconnectEntry server now notice.data).serverID_eq

theorem handle_entry_of_none
    (hnone : server.entry notice.data.userID = none)
    (hroom : server.gnsInfoMap.size < server.gnsInfoMap.capacity)
    (hlogin : notice.status = .active) :
    (server.handle now notice).entry notice.data.userID =
      some notice.info := by
  have hget : server.gnsInfoMap.get notice.data.userID = none := hnone
  have hhandle : server.handle now notice = server.gnsInsert
      ⟨notice.data.userID, notice.data.serverID, notice.data.connPos,
        .active, notice.data.time⟩ := by
    simp only [handle, hlogin, loginEntry, hget]
  rw [hhandle, gnsInsert_of_room hnone hroom, Notice.info, hlogin]
  exact BoundedMap.get_put_self hroom

/-- An entry for another server's session is overwritten by a notice that is
not older. -/
theorem handle_entry_of_foreign
    (hentry : server.entry notice.data.userID = some info)
    (hforeign : info.serverID ≠ server.serverID)
    (huser : info.userID = notice.data.userID) :
    (server.handle now notice).entry notice.data.userID =
      if info.lastActiveTime ≤ notice.data.time then some notice.info
      else some info := by
  have hget : server.gnsInfoMap.get notice.data.userID = some info := hentry
  have hother : ¬ (info.serverID = server.serverID ∧
      info.status = .active) := fun hown => hforeign hown.1
  split_ifs with htime
  · have hhandle : server.handle now notice =
        server.gnsAssign notice.data.userID notice.data.serverID
          notice.data.connPos notice.status notice.data.time := by
      cases hstatus : notice.status with
      | active =>
          simp only [handle, hstatus, loginEntry, hget, if_pos htime,
            if_neg hother]
      | unactive =>
          simp only [handle, hstatus, disconnectEntry, hget, if_pos htime,
            if_neg hother]
    rw [hhandle, gnsAssign_entry_self, hentry, Notice.info, ← huser]
    rfl
  · have hhandle : server.handle now notice = server := by
      cases hstatus : notice.status with
      | active =>
          simp only [handle, hstatus, loginEntry, hget, if_neg htime]
      | unactive =>
          simp only [handle, hstatus, disconnectEntry, hget, if_neg htime]
    rw [hhandle]
    exact hentry

/-! ## All notices -/

/-- The notice is one of the list and none of the list is newer. -/
def Newest (notice : Notice) (notices : List Notice) : Prop :=
  notice ∈ notices ∧
    ∀ other ∈ notices, other.data.time ≤ notice.data.time

theorem exists_newest (notices : List Notice) (hnotices : notices ≠ []) :
    ∃ newest, Newest newest notices := by
  let time : Notice → ℕ := fun notice => notice.data.time
  cases hmax : notices.argmax time with
  | none => exact (hnotices (List.argmax_eq_none.mp hmax)).elim
  | some newest =>
      refine ⟨newest, List.argmax_mem hmax, ?_⟩
      intro other hother
      have hle : time other ≤ time newest :=
        List.le_of_mem_argmax hother hmax
      exact hle

theorem observe_from
    {deliveries : List (ℕ × Notice)} {held : Notice}
    (hheld : server.entry userID = some held.info)
    (hheldUser : held.data.userID = userID)
    (hheldServer : held.data.serverID ≠ server.serverID)
    (hnotices : ∀ notice ∈ deliveries.map Prod.snd,
      notice.data.userID = userID ∧
        notice.data.serverID ≠ server.serverID)
    (htimes : ∀ first ∈ held :: deliveries.map Prod.snd,
      ∀ second ∈ held :: deliveries.map Prod.snd,
      first.data.time = second.data.time → first = second)
    (hnewest : Newest newest (held :: deliveries.map Prod.snd)) :
    (server.observe deliveries).entry userID = some newest.info := by
  induction deliveries generalizing server held with
  | nil =>
      rw [List.map_nil] at hnewest
      rw [List.mem_singleton.mp hnewest.1]
      exact hheld
  | cons delivery deliveries ih =>
      rcases delivery with ⟨now, notice⟩
      simp only [List.map_cons] at hnotices htimes hnewest
      rcases hnotices notice (by simp) with ⟨huser, hserver⟩
      have hstep : (server.handle now notice).entry userID =
          if held.data.time ≤ notice.data.time then some notice.info
          else some held.info := by
        rw [← huser] at hheld ⊢
        exact handle_entry_of_foreign hheld hheldServer
          (hheldUser.trans huser.symm)
      have hlater : ∀ later ∈ deliveries.map Prod.snd,
          later.data.userID = userID ∧
            later.data.serverID ≠ (server.handle now notice).serverID := by
        intro later hmem
        rw [handle_serverID]
        exact hnotices later (by simp [hmem])
      change ((server.handle now notice).observe deliveries).entry userID = _
      rcases hnewest with ⟨hmem, hmax⟩
      by_cases htime : held.data.time ≤ notice.data.time
      · rw [if_pos htime] at hstep
        apply ih hstep huser _ hlater
        · intro first hfirst second hsecond
          exact htimes first (List.mem_cons_of_mem held hfirst) second
            (List.mem_cons_of_mem held hsecond)
        · refine ⟨?_, fun other hother =>
            hmax other (List.mem_cons_of_mem held hother)⟩
          rcases List.mem_cons.mp hmem with rfl | hrest
          · -- the held notice is as new as the one that replaces it
            have hequal : newest.data.time = notice.data.time :=
              le_antisymm htime (hmax notice (by simp))
            rw [htimes newest (by simp) notice (by simp) hequal]
            exact List.mem_cons_self
          · exact hrest
        · rw [handle_serverID]
          exact hserver
      · rw [if_neg htime] at hstep
        apply ih hstep hheldUser _ hlater
        · intro first hfirst second hsecond
          apply htimes first _ second
          · rcases List.mem_cons.mp hsecond with rfl | hrest
            · simp
            · simp [hrest]
          · rcases List.mem_cons.mp hfirst with rfl | hrest
            · simp
            · simp [hrest]
        · constructor
          · rcases List.mem_cons.mp hmem with rfl | hrest
            · simp
            · rcases List.mem_cons.mp hrest with rfl | hrest
              · exact (htime (hmax held (by simp))).elim
              · simp [hrest]
          · intro other hother
            rcases List.mem_cons.mp hother with rfl | hrest
            · exact hmax other (by simp)
            · exact hmax other (by simp [hrest])
        · rw [handle_serverID]
          exact hheldServer

/-! ## The result -/

/-- What the senders have sent about a user: each sender its own stream, which
begins with a login, and no two notices in one second. -/
structure Streams (userID : UInt64) (streams : ℤ → List Notice) : Prop where
  about : ∀ sender, ∀ notice ∈ streams sender,
    notice.data.userID = userID ∧ notice.data.serverID = sender
  first : ∀ sender notice, (streams sender).head? = some notice →
    notice.status = .active
  times : ∀ sender, ∀ notice ∈ streams sender,
    ∀ sender', ∀ notice' ∈ streams sender',
    notice.data.time = notice'.data.time → notice = notice'

/-- A server without an entry for the user but with a free node receives the
streams of all other servers, each in its own order. -/
structure Observes
    (server : Server) (userID : UInt64) (streams : ℤ → List Notice)
    (deliveries : List (ℕ × Notice)) : Prop where
  entry_none : server.entry userID = none
  room : server.gnsInfoMap.size < server.gnsInfoMap.capacity
  own : streams server.serverID = []
  order : ∀ sender, (deliveries.map Prod.snd).filter
    (fun notice => notice.data.serverID = sender) = streams sender

theorem Observes.mem_iff
    {streams : ℤ → List Notice} {deliveries : List (ℕ × Notice)}
    (hobserves : Observes server userID streams deliveries)
    (notice : Notice) :
    notice ∈ deliveries.map Prod.snd ↔
      notice ∈ streams notice.data.serverID := by
  rw [← hobserves.order notice.data.serverID, List.mem_filter]
  simp

theorem observe_newest
    {streams : ℤ → List Notice} {deliveries : List (ℕ × Notice)}
    (hstreams : Streams userID streams)
    (hobserves : Observes server userID streams deliveries)
    (hnewest : Newest newest (deliveries.map Prod.snd)) :
    (server.observe deliveries).entry userID = some newest.info := by
  have hmem := hobserves.mem_iff
  have hnotices : ∀ notice ∈ deliveries.map Prod.snd,
      notice.data.userID = userID ∧
        notice.data.serverID ≠ server.serverID := by
    intro notice hnotice
    have hstream := (hmem notice).mp hnotice
    refine ⟨(hstreams.about _ notice hstream).1, ?_⟩
    intro hown
    rw [hown, hobserves.own] at hstream
    simp at hstream
  have htimes : ∀ first ∈ deliveries.map Prod.snd,
      ∀ second ∈ deliveries.map Prod.snd,
      first.data.time = second.data.time → first = second := by
    intro first hfirst second hsecond
    exact hstreams.times _ first ((hmem first).mp hfirst) _ second
      ((hmem second).mp hsecond)
  cases deliveries with
  | nil => simp [Newest] at hnewest
  | cons delivery deliveries =>
      rcases delivery with ⟨now, first⟩
      simp only [List.map_cons] at hnotices htimes hnewest
      rcases hnotices first (by simp) with ⟨huser, hserver⟩
      -- the first notice of all is also the first of its sender
      have hlogin : first.status = .active := by
        apply hstreams.first first.data.serverID first
        rw [← hobserves.order first.data.serverID, List.map_cons,
          List.filter_cons_of_pos (by simp)]
        rfl
      have hentry : (server.handle now first).entry userID =
          some first.info := by
        rw [← huser]
        apply handle_entry_of_none _ hobserves.room hlogin
        rw [huser]
        exact hobserves.entry_none
      apply observe_from hentry huser _ _ htimes hnewest
      · rw [handle_serverID]
        exact hserver
      · intro notice hnotice
        rw [handle_serverID]
        exact hnotices notice (by simp [hnotice])

/-- The final entry of an observer is that of the newest notice, and any two
observers of the same streams agree. -/
theorem observers_agree
    (userID : UInt64) (streams : ℤ → List Notice)
    (hstreams : Streams userID streams)
    (server : Server) (deliveries : List (ℕ × Notice))
    (hobserves : Observes server userID streams deliveries) :
    (∀ newest, Newest newest (deliveries.map Prod.snd) →
      (server.observe deliveries).entry userID = some newest.info) ∧
    ∀ other otherDeliveries,
      Observes other userID streams otherDeliveries →
      (other.observe otherDeliveries).entry userID =
        (server.observe deliveries).entry userID := by
  have hfinal : ∀ newest, Newest newest (deliveries.map Prod.snd) →
      (server.observe deliveries).entry userID = some newest.info :=
    fun newest hnewest => observe_newest hstreams hobserves hnewest
  refine ⟨hfinal, ?_⟩
  intro other otherDeliveries hother
  have hsame : ∀ notice, notice ∈ otherDeliveries.map Prod.snd ↔
      notice ∈ deliveries.map Prod.snd := by
    intro notice
    rw [hother.mem_iff, hobserves.mem_iff]
  cases hempty : deliveries.map Prod.snd with
  | nil =>
      have hnone : otherDeliveries = [] := by
        apply List.map_eq_nil_iff.mp
        apply List.eq_nil_iff_forall_not_mem.mpr
        intro notice hnotice
        rw [hsame, hempty] at hnotice
        simp at hnotice
      rw [hnone, List.map_eq_nil_iff.mp hempty]
      change other.entry userID = server.entry userID
      rw [hother.entry_none, hobserves.entry_none]
  | cons first rest =>
      have hsome : deliveries.map Prod.snd ≠ [] := by
        rw [hempty]
        simp
      rcases exists_newest _ hsome with ⟨newest, hnewest⟩
      rw [hfinal newest hnewest]
      apply observe_newest hstreams hother
      refine ⟨(hsame newest).mpr hnewest.1, ?_⟩
      intro notice hnotice
      exact hnewest.2 notice ((hsame notice).mp hnotice)

/-- Server 2 reports a login and its end, server 3 a login in between. -/
theorem observers_agree_three :
    ((start 1 5).observe
        [(20, ⟨.active, ⟨7, 2, 501, 11⟩⟩), (21, ⟨.active, ⟨7, 3, 502, 12⟩⟩),
          (22, ⟨.unactive, ⟨7, 2, 501, 13⟩⟩)]).entry 7 =
      some ⟨7, 2, 501, .unactive, 13⟩ := by
  have hagree := observers_agree 7
    (fun sender =>
      if sender = 2 then
        [⟨.active, ⟨7, 2, 501, 11⟩⟩, ⟨.unactive, ⟨7, 2, 501, 13⟩⟩]
      else if sender = 3 then [⟨.active, ⟨7, 3, 502, 12⟩⟩]
      else [])
    { about := by
        intro sender notice hnotice
        split_ifs at hnotice with htwo hthree
        · rcases List.mem_cons.mp hnotice with rfl | hrest
          · exact ⟨rfl, htwo.symm⟩
          · rw [List.mem_singleton.mp hrest]
            exact ⟨rfl, htwo.symm⟩
        · rw [List.mem_singleton.mp hnotice]
          exact ⟨rfl, hthree.symm⟩
        · simp at hnotice
      first := by
        intro sender notice hnotice
        split_ifs at hnotice
        · rw [← Option.some.inj hnotice]
        · rw [← Option.some.inj hnotice]
        · simp at hnotice
      times := by
        intro sender notice hnotice sender' notice' hnotice' htime
        split_ifs at hnotice hnotice' <;>
          simp at hnotice hnotice' <;>
          rcases hnotice with rfl | rfl <;>
          rcases hnotice' with rfl | rfl <;> simp_all }
    (start 1 5)
    [(20, ⟨.active, ⟨7, 2, 501, 11⟩⟩), (21, ⟨.active, ⟨7, 3, 502, 12⟩⟩),
      (22, ⟨.unactive, ⟨7, 2, 501, 13⟩⟩)]
    { entry_none := rfl
      room := by decide
      own := rfl
      order := by
        intro sender
        by_cases htwo : sender = 2
        · subst htwo
          decide
        · by_cases hthree : sender = 3
          · subst hthree
            decide
          · simp [htwo, hthree, Ne.symm htwo, Ne.symm hthree] }
  exact hagree.1 ⟨.unactive, ⟨7, 2, 501, 13⟩⟩ ⟨by simp, by simp⟩

end Server

end MessageBus.Conn
