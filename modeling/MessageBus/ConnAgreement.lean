import MessageBus.ConnObserver
import MessageBus.SharedChannels

/-!
# Agreement of the user tables

A server compares the times of two notices in whole seconds.  As long as what a
user does within one second happens on one server, the newest login or close
wins everywhere: a server has recorded it, or has a later inactive entry, or
the news is still in flight to it.  Two logins in the same second on two
servers can end each other.
-/

namespace MessageBus.Conn

open SharedChannels

def Notice.body (notice : Notice) : Body :=
  match notice.status with
  | .active => .loginNotice [notice.data]
  | .unactive => .disconnect [notice.data]

def Body.notices : Body → List Notice
  | .loginNotice entries => entries.map fun data => ⟨.active, data⟩
  | .disconnect entries => entries.map fun data => ⟨.unactive, data⟩
  | .loginSyncReq _ => []
  | .loginSyncRsp entries => entries.map fun data => ⟨.active, data⟩

theorem Notice.notices_body (notice : Notice) :
    notice.body.notices = [notice] := by
  rcases notice with ⟨status, data⟩
  cases status with
  | active => rfl
  | unactive => rfl

/-- What a message says about a user. -/
def Message.about (userID : UInt64) (message : Message) : List Notice :=
  message.body.notices.filter fun notice => notice.data.userID = userID

def Message.channel (message : Message) : ℤ × ℤ :=
  (message.srcID, message.dstID)

namespace Server

variable {server : Server} {now : ℕ} {notice : Notice}

theorem dealPkg_body (srcID : ℤ) :
    server.dealPkg now srcID notice.body =
      (server.handle now notice, []) := by
  rcases notice with ⟨status, data⟩
  cases status with
  | active => rfl
  | unactive => rfl

theorem onlyUser_handle (server : Server) (now : ℕ) (notice : Notice) :
    OnlyUser notice.data.userID server (server.handle now notice) := by
  unfold handle
  split
  · exact onlyUser_loginEntry server now notice.data
  · exact onlyUser_disconnectEntry server now notice.data

theorem opensNone_handle (server : Server) (now : ℕ) (notice : Notice) :
    OpensNone server (server.handle now notice) := by
  unfold handle
  split
  · exact opensNone_loginEntry server now notice.data
  · exact opensNone_disconnectEntry server now notice.data

/-- What a notice does on a consistent server: nothing, or it takes the entry
over, or as a disconnect it ends the session of this server. -/
theorem handle_cases
    (hcons : server.Consistent) (huser : notice.data.userID ≠ 0)
    (hokay : (server.handle now notice).insertFailed = false) :
    (server.handle now notice = server ∧
      (∀ info, server.entry notice.data.userID = some info →
        notice.data.time < info.lastActiveTime) ∧
      (server.entry notice.data.userID = none →
        notice.status = .unactive)) ∨
    ((∀ info, server.entry notice.data.userID = some info →
        info.lastActiveTime ≤ notice.data.time) ∧
      (∃ info, (server.handle now notice).entry notice.data.userID =
        some info ∧ info.Records notice.data notice.status)) ∨
    (notice.status = .unactive ∧
      (∃ info, server.entry notice.data.userID = some info ∧
        info.serverID = server.serverID ∧ info.status = .active ∧
        info.lastActiveTime ≤ notice.data.time) ∧
      ∃ info, (server.handle now notice).entry notice.data.userID =
        some info ∧ info.status = .unactive ∧ info.lastActiveTime = now) := by
  rcases notice with ⟨status, data⟩
  cases status with
  | active =>
      change server.loginEntry now data = server ∧ _ ∨ _
      rcases loginEntry_cases hcons.sound huser hokay with
        ⟨info, hinfo, hnewer, hsame⟩ | ⟨htimes, hrecords, -⟩
      · left
        refine ⟨hsame, ?_, ?_⟩
        · intro found hfound
          rw [hinfo, Option.some.injEq] at hfound
          rw [← hfound]
          exact hnewer
        · intro hnone
          rw [hinfo] at hnone
          simp at hnone
      · right
        left
        exact ⟨htimes, hrecords⟩
  | unactive =>
      change server.disconnectEntry now data = server ∧ _ ∨ _
      rcases disconnectEntry_cases server now data with
        ⟨hsame, hspared⟩ | ⟨info, hinfo, htime, ⟨hown, hactive, hconn,
          hclose⟩ | ⟨-, hassign⟩⟩
      · left
        refine ⟨hsame, ?_, fun _ => rfl⟩
        intro info hinfo
        rcases hspared info hinfo with hnewer | ⟨hown, hactive, hconn⟩
        · exact hnewer
        · exact (hconn (hcons.active_open data.userID info hinfo hown
            hactive)).elim
      · right
        right
        refine ⟨rfl, ⟨info, hinfo, hown, hactive, htime⟩, ?_⟩
        change ∃ info, (server.disconnectEntry now data).entry data.userID =
          some info ∧ _
        rw [hclose, releaseConn_entry_self hconn huser, hinfo]
        exact ⟨_, rfl, rfl, rfl⟩
      · right
        left
        constructor
        · intro found hfound
          rw [hinfo, Option.some.injEq] at hfound
          rw [← hfound]
          exact htime
        · change ∃ info, (server.disconnectEntry now data).entry data.userID =
            some info ∧ _
          rw [hassign, gnsAssign_entry_self, hinfo]
          exact ⟨_, rfl, rfl, rfl, rfl, rfl⟩

end Server

namespace Cluster

variable {cluster before after : Cluster} {fuel : ℕ} {event : Event}
  {serverID : ℤ} {result : Server × List Packet} {userID other : UInt64}
  {notice newest : Notice} {rest : List Message}

/-- What is in flight about a user between two servers, oldest first. -/
def waitingAbout (cluster : Cluster) (userID : UInt64) (srcID dstID : ℤ) :
    List Notice :=
  waiting Message.channel (Message.about userID) (srcID, dstID)
    cluster.inFlight

/-! ## The invariant -/

/-- The first thing that a server without an entry will hear of a user from
another server is a login. -/
structure Introduced (cluster : Cluster) (userID : UInt64) : Prop where
  first : ∀ serverID ∈ cluster.members,
    (cluster.servers serverID).entry userID = none →
    ∀ srcID, ∀ notice ∈ (cluster.waitingAbout userID srcID serverID).head?,
      notice.status = .active
  session : ∀ serverID ∈ cluster.members, ∀ otherID ∈ cluster.members,
    otherID ≠ serverID →
    (∃ connPos, (cluster.servers serverID).userAt connPos = some userID) →
    (cluster.servers otherID).entry userID = none →
    cluster.waitingAbout userID serverID otherID ≠ []

structure Untouched (cluster : Cluster) (userID : UInt64) : Prop where
  recorded : ∀ event ∈ cluster.logins ++ cluster.closes,
    event.userID ≠ userID
  entry_none : ∀ serverID, (cluster.servers serverID).entry userID = none
  no_session : ∀ serverID connPos,
    (cluster.servers serverID).userAt connPos ≠ some userID
  silent : ∀ srcID dstID, cluster.waitingAbout userID srcID dstID = []

/-- The server has taken note of the newest event: its entry is that event or
a later inactive one, or it has forgotten the user altogether. -/
def Informed
    (cluster : Cluster) (userID : UInt64) (newest : Notice) (serverID : ℤ) :
    Prop :=
  (∃ info, (cluster.servers serverID).entry userID = some info ∧
      newest.data.time ≤ info.lastActiveTime ∧
      (info.status = .unactive ∨
        newest.status = .active ∧ info.Records newest.data .active)) ∨
    (cluster.servers serverID).entry userID = none ∧
      ∀ srcID, cluster.waitingAbout userID srcID serverID = []

structure Converging
    (cluster : Cluster) (userID : UInt64) (newest : Notice) : Prop where
  recorded : newest.data ∈ cluster.logins ++ cluster.closes
  user : newest.data.userID = userID
  home_mem : newest.data.serverID ∈ cluster.members
  time_le : newest.data.time ≤ cluster.now
  -- only the server of the newest event can have older news of that second
  waiting_older : ∀ srcID dstID,
    ∀ notice ∈ cluster.waitingAbout userID srcID dstID,
    notice.data.time < newest.data.time ∨
      srcID = newest.data.serverID ∧ notice.data.time ≤ newest.data.time
  waiting_last : ∀ dstID ∈ cluster.members, dstID ≠ newest.data.serverID →
    ∀ notice ∈ (cluster.waitingAbout userID newest.data.serverID
      dstID).getLast?, notice = newest
  active_le : ∀ serverID ∈ cluster.members, ∀ info,
    (cluster.servers serverID).entry userID = some info →
    info.status = .active → info.lastActiveTime ≤ newest.data.time
  home : newest.status = .active →
    cluster.SessionOpen userID newest.data.serverID newest.data.connPos ∧
      ∃ info, (cluster.servers newest.data.serverID).entry userID =
        some info ∧ info.Records newest.data .active
  informed : ∀ serverID ∈ cluster.members,
    serverID ≠ newest.data.serverID ∧
        cluster.waitingAbout userID newest.data.serverID serverID ≠ [] ∨
      cluster.Informed userID newest serverID

def Settled (cluster : Cluster) (userID : UInt64) : Prop :=
  cluster.Introduced userID ∧
    (cluster.Untouched userID ∨ ∃ newest, cluster.Converging userID newest)

/-! ## Steps that do not concern the user -/

structure SameFor (userID : UInt64) (before after : Cluster) : Prop where
  members : after.members = before.members
  now_le : before.now ≤ after.now
  entry : ∀ serverID, (after.servers serverID).entry userID =
    (before.servers serverID).entry userID
  userAt : ∀ serverID connPos,
    (after.servers serverID).userAt connPos = some userID ↔
      (before.servers serverID).userAt connPos = some userID
  waitingAbout : ∀ srcID dstID, after.waitingAbout userID srcID dstID =
    before.waitingAbout userID srcID dstID
  recorded : before.logins ++ before.closes ⊆ after.logins ++ after.closes
  no_other : ∀ event ∈ after.logins ++ after.closes,
    event.userID = userID → event ∈ before.logins ++ before.closes

theorem Introduced.same
    (hintro : before.Introduced userID)
    (hsame : SameFor userID before after) : after.Introduced userID := by
  constructor
  · intro serverID hmember hnone srcID notice hhead
    rw [hsame.members] at hmember
    rw [hsame.entry] at hnone
    rw [hsame.waitingAbout] at hhead
    exact hintro.first serverID hmember hnone srcID notice hhead
  · rintro serverID hmember otherID hother hne ⟨connPos, hconn⟩ hnone
    rw [hsame.members] at hmember hother
    rw [hsame.entry] at hnone
    rw [hsame.waitingAbout]
    exact hintro.session serverID hmember otherID hother hne
      ⟨connPos, (hsame.userAt serverID connPos).mp hconn⟩ hnone

theorem Converging.same
    (hconv : before.Converging userID newest)
    (hsame : SameFor userID before after) :
    after.Converging userID newest := by
  constructor
  · exact hsame.recorded hconv.recorded
  · exact hconv.user
  · rw [hsame.members]
    exact hconv.home_mem
  · exact hconv.time_le.trans hsame.now_le
  · intro srcID dstID
    rw [hsame.waitingAbout]
    exact hconv.waiting_older srcID dstID
  · intro dstID hmember
    rw [hsame.members] at hmember
    rw [hsame.waitingAbout]
    exact hconv.waiting_last dstID hmember
  · intro serverID hmember
    rw [hsame.members] at hmember
    rw [hsame.entry]
    exact hconv.active_le serverID hmember
  · intro hactive
    rw [hsame.entry]
    exact ⟨(hsame.userAt _ _).mpr (hconv.home hactive).1,
      (hconv.home hactive).2⟩
  · intro serverID hmember
    rw [hsame.members] at hmember
    rw [hsame.waitingAbout]
    unfold Informed
    simp only [hsame.entry, hsame.waitingAbout]
    exact hconv.informed serverID hmember

theorem Settled.same
    (hsettled : before.Settled userID)
    (hsame : SameFor userID before after) : after.Settled userID := by
  refine ⟨hsettled.1.same hsame, ?_⟩
  rcases hsettled.2 with hnone | ⟨newest, hconv⟩
  · left
    constructor
    · intro event hevent huser
      exact hnone.recorded event (hsame.no_other event hevent huser) huser
    · intro serverID
      rw [hsame.entry]
      exact hnone.entry_none serverID
    · intro serverID connPos hconn
      exact hnone.no_session serverID connPos
        ((hsame.userAt serverID connPos).mp hconn)
    · intro srcID dstID
      rw [hsame.waitingAbout]
      exact hnone.silent srcID dstID
  · right
    exact ⟨newest, hconv.same hsame⟩

/-! ## A login or a close is announced -/

/-- Whatever the user has done in this second was on the one server. -/
def SecondOf (cluster : Cluster) (userID : UInt64) (serverID : ℤ) : Prop :=
  ∀ event ∈ cluster.logins ++ cluster.closes, event.userID = userID →
    event.time < cluster.now ∨ event.serverID = serverID

structure Announces (notice : Notice) (before after : Cluster) : Prop where
  members : after.members = before.members
  now_eq : after.now = before.now
  time_eq : notice.data.time = before.now
  home_mem : notice.data.serverID ∈ before.members
  recorded : notice.data ∈ after.logins ++ after.closes
  entry_home : ∃ info,
    (after.servers notice.data.serverID).entry notice.data.userID =
      some info ∧ info.Records notice.data notice.status
  opened : notice.status = .active → after.SessionOpen notice.data.userID
    notice.data.serverID notice.data.connPos
  closed : notice.status = .unactive →
    before.SessionOpen notice.data.userID notice.data.serverID
      notice.data.connPos
  others : ∀ serverID ≠ notice.data.serverID,
    after.servers serverID = before.servers serverID
  waiting_eq : ∀ srcID ≠ notice.data.serverID, ∀ dstID,
    after.waitingAbout notice.data.userID srcID dstID =
      before.waitingAbout notice.data.userID srcID dstID
  waiting_home : ∀ dstID, ∃ copies,
    after.waitingAbout notice.data.userID notice.data.serverID dstID =
      before.waitingAbout notice.data.userID notice.data.serverID dstID ++
        List.replicate copies notice ∧
      (dstID ∈ before.members → dstID ≠ notice.data.serverID → copies ≠ 0)

theorem Introduced.announces
    (hintro : before.Introduced notice.data.userID)
    (hann : Announces notice before after) :
    after.Introduced notice.data.userID := by
  have hhome : (after.servers notice.data.serverID).entry notice.data.userID ≠
      none := by
    rcases hann.entry_home with ⟨info, hinfo, -⟩
    rw [hinfo]
    simp
  constructor
  · intro serverID hmember hnone srcID found hhead
    have hne : serverID ≠ notice.data.serverID := by
      rintro rfl
      exact hhome hnone
    rw [hann.members] at hmember
    rw [hann.others serverID hne] at hnone
    by_cases hsrc : srcID = notice.data.serverID
    · subst hsrc
      rcases hann.waiting_home serverID with ⟨copies, hcopies, -⟩
      rw [hcopies] at hhead
      cases hold : before.waitingAbout notice.data.userID
          notice.data.serverID serverID with
      | cons first rest =>
          rw [hold] at hhead
          apply hintro.first serverID hmember hnone notice.data.serverID
          rw [hold]
          exact hhead
      | nil =>
          rw [hold, List.nil_append] at hhead
          have hfound := List.eq_of_mem_replicate
            (List.mem_of_mem_head? hhead)
          -- a session whose close is announced was announced before
          cases hstatus : notice.status with
          | active => rw [hfound, hstatus]
          | unactive =>
              exact (hintro.session notice.data.serverID hann.home_mem
                serverID hmember hne ⟨_, hann.closed hstatus⟩ hnone hold).elim
    · rw [hann.waiting_eq srcID hsrc] at hhead
      exact hintro.first serverID hmember hnone srcID found hhead
  · rintro serverID hmember otherID hother hne ⟨connPos, hconn⟩ hnone
    have hothers : otherID ≠ notice.data.serverID := by
      rintro rfl
      exact hhome hnone
    rw [hann.members] at hmember hother
    rw [hann.others otherID hothers] at hnone
    by_cases hserver : serverID = notice.data.serverID
    · subst hserver
      rcases hann.waiting_home otherID with ⟨copies, hcopies, hsome⟩
      rw [hcopies]
      simp [hsome hother hothers]
    · rw [hann.others serverID hserver] at hconn
      rw [hann.waiting_eq serverID hserver]
      exact hintro.session serverID hmember otherID hother hne ⟨connPos, hconn⟩
        hnone

/-- Everything known before is no later than what is announced now. -/
structure Preceding (cluster : Cluster) (notice : Notice) : Prop where
  waiting_older : ∀ srcID dstID,
    ∀ found ∈ cluster.waitingAbout notice.data.userID srcID dstID,
    found.data.time < notice.data.time ∨
      srcID = notice.data.serverID ∧ found.data.time ≤ notice.data.time
  active_le : ∀ serverID ∈ cluster.members, ∀ info,
    (cluster.servers serverID).entry notice.data.userID = some info →
    info.status = .active → info.lastActiveTime ≤ notice.data.time

theorem Settled.preceding
    (hsettled : cluster.Settled notice.data.userID)
    (hsecond : cluster.SecondOf notice.data.userID notice.data.serverID)
    (htime : notice.data.time = cluster.now) :
    cluster.Preceding notice := by
  rcases hsettled.2 with hnone | ⟨newest, hconv⟩
  · constructor
    · intro srcID dstID found hfound
      rw [hnone.silent] at hfound
      simp at hfound
    · intro serverID _ info hinfo
      rw [hnone.entry_none] at hinfo
      simp at hinfo
  · have hle := hconv.time_le
    have hnewest := hsecond newest.data hconv.recorded hconv.user
    constructor
    · intro srcID dstID found hfound
      rcases hconv.waiting_older srcID dstID found hfound with
        holder | ⟨hsrc, holder⟩
      · left
        omega
      · rcases hnewest with hearlier | hserver
        · left
          omega
        · right
          rw [hsrc, hserver]
          exact ⟨rfl, by omega⟩
    · intro serverID hmember info hinfo hactive
      have hold := hconv.active_le serverID hmember info hinfo hactive
      omega

theorem Preceding.converging
    (hprec : before.Preceding notice) (hann : Announces notice before after) :
    after.Converging notice.data.userID notice := by
  rcases hann.entry_home with ⟨entry, hentry, hrecords⟩
  constructor
  · exact hann.recorded
  · rfl
  · rw [hann.members]
    exact hann.home_mem
  · rw [hann.now_eq, hann.time_eq]
  · intro srcID dstID found hfound
    by_cases hsrc : srcID = notice.data.serverID
    · subst hsrc
      rcases hann.waiting_home dstID with ⟨copies, hcopies, -⟩
      rw [hcopies] at hfound
      rcases List.mem_append.mp hfound with hold | hnew
      · exact hprec.waiting_older _ dstID found hold
      · right
        rw [List.eq_of_mem_replicate hnew]
        exact ⟨rfl, le_rfl⟩
    · rw [hann.waiting_eq srcID hsrc] at hfound
      exact hprec.waiting_older srcID dstID found hfound
  · intro dstID hmember hne found hlast
    rw [hann.members] at hmember
    rcases hann.waiting_home dstID with ⟨copies, hcopies, hsome⟩
    rw [hcopies, List.getLast?_append_of_ne_nil _
      (by simp [hsome hmember hne])] at hlast
    exact List.eq_of_mem_replicate (List.mem_of_getLast? hlast)
  · intro serverID hmember info hinfo hactive
    by_cases hserver : serverID = notice.data.serverID
    · subst hserver
      rw [hentry, Option.some.injEq] at hinfo
      rw [← hinfo]
      exact hrecords.2.2.2.le
    · rw [hann.members] at hmember
      rw [hann.others serverID hserver] at hinfo
      exact hprec.active_le serverID hmember info hinfo hactive
  · intro hactive
    rw [hactive] at hrecords
    exact ⟨hann.opened hactive, entry, hentry, hrecords⟩
  · intro serverID hmember
    rw [hann.members] at hmember
    by_cases hserver : serverID = notice.data.serverID
    · subst hserver
      right
      left
      refine ⟨entry, hentry, hrecords.2.2.2.ge, ?_⟩
      cases hstatus : notice.status with
      | active =>
          rw [hstatus] at hrecords
          exact Or.inr ⟨rfl, hrecords⟩
      | unactive =>
          left
          rw [hrecords.2.2.1, hstatus]
    · left
      rcases hann.waiting_home serverID with ⟨copies, hcopies, hsome⟩
      rw [hcopies]
      exact ⟨hserver, by simp [hsome hmember hserver]⟩

theorem Settled.announces
    (hsettled : before.Settled notice.data.userID)
    (hsecond : before.SecondOf notice.data.userID notice.data.serverID)
    (hann : Announces notice before after) :
    after.Settled notice.data.userID :=
  ⟨hsettled.1.announces hann, Or.inr ⟨notice,
    (hsettled.preceding hsecond hann.time_eq).converging hann⟩⟩

/-! ## A notice arrives -/

structure Delivers
    (notice : Notice) (srcID dstID : ℤ) (before after : Cluster) :
    Prop where
  members : after.members = before.members
  now_eq : after.now = before.now
  recorded : after.logins ++ after.closes = before.logins ++ before.closes
  dst_mem : dstID ∈ before.members
  foreign : srcID ≠ dstID
  handled : after.servers dstID =
    (before.servers dstID).handle before.now notice
  others : ∀ serverID ≠ dstID,
    after.servers serverID = before.servers serverID
  waiting_eq : ∀ fromID toID, (fromID, toID) ≠ (srcID, dstID) →
    after.waitingAbout notice.data.userID fromID toID =
      before.waitingAbout notice.data.userID fromID toID
  waiting_front : before.waitingAbout notice.data.userID srcID dstID =
    notice :: after.waitingAbout notice.data.userID srcID dstID

section Delivery

variable {srcID dstID : ℤ}

theorem Delivers.mem_waiting
    (hdel : Delivers notice srcID dstID before after) {fromID toID : ℤ}
    {found : Notice}
    (hfound : found ∈
      after.waitingAbout notice.data.userID fromID toID) :
    found ∈ before.waitingAbout notice.data.userID fromID toID := by
  by_cases hchannel : (fromID, toID) = (srcID, dstID)
  · rw [Prod.mk.injEq] at hchannel
    rw [hchannel.1, hchannel.2] at hfound ⊢
    rw [hdel.waiting_front]
    exact List.mem_cons_of_mem notice hfound
  · rw [hdel.waiting_eq fromID toID hchannel] at hfound
    exact hfound

theorem Delivers.waiting_other
    (hdel : Delivers notice srcID dstID before after) {serverID : ℤ}
    (hne : serverID ≠ dstID) (fromID : ℤ) :
    after.waitingAbout notice.data.userID fromID serverID =
      before.waitingAbout notice.data.userID fromID serverID := by
  apply hdel.waiting_eq
  rw [ne_eq, Prod.mk.injEq]
  exact fun hchannel => hne hchannel.2

variable
  (hdel : Delivers notice srcID dstID before after)
  (hcons : (before.servers dstID).Consistent)
  (huser : notice.data.userID ≠ 0)
  (hokay : (after.servers dstID).insertFailed = false)

include hdel hcons huser hokay

/-- The receiver of an introduced user has an entry afterwards. -/
theorem Introduced.entry_delivers
    (hintro : before.Introduced notice.data.userID) :
    (after.servers dstID).entry notice.data.userID ≠ none := by
  rw [hdel.handled] at hokay ⊢
  rcases Server.handle_cases hcons huser hokay with
    ⟨hsame, -, hmissed⟩ | ⟨-, info, hinfo, -⟩ | ⟨-, -, info, hinfo, -⟩
  · rw [hsame]
    intro hnone
    have hhead := hintro.first dstID hdel.dst_mem hnone srcID notice
      (by rw [hdel.waiting_front]; rfl)
    rw [hmissed hnone] at hhead
    simp at hhead
  · rw [hinfo]
    simp
  · rw [hinfo]
    simp

theorem Introduced.delivers
    (hintro : before.Introduced notice.data.userID) :
    after.Introduced notice.data.userID := by
  have hentry := hintro.entry_delivers hdel hcons huser hokay
  constructor
  · intro serverID hmember hnone fromID found hhead
    have hne : serverID ≠ dstID := by
      rintro rfl
      exact hentry hnone
    rw [hdel.members] at hmember
    rw [hdel.others serverID hne] at hnone
    rw [hdel.waiting_other hne] at hhead
    exact hintro.first serverID hmember hnone fromID found hhead
  · rintro serverID hmember otherID hother hdistinct ⟨connPos, hconn⟩ hnone
    have hne : otherID ≠ dstID := by
      rintro rfl
      exact hentry hnone
    rw [hdel.members] at hmember hother
    rw [hdel.others otherID hne] at hnone
    rw [hdel.waiting_other hne]
    apply hintro.session serverID hmember otherID hother hdistinct _ hnone
    by_cases hserver : serverID = dstID
    · subst hserver
      rw [hdel.handled] at hconn hokay
      exact ⟨connPos, ((Server.opensNone_handle _ _ _).sessions hcons.sound
        hokay notice.data.userID huser connPos hconn).1⟩
    · rw [hdel.others serverID hserver] at hconn
      exact ⟨connPos, hconn⟩

/-- The newest notice itself has arrived. -/
theorem Converging.informed_newest
    (hintro : before.Introduced notice.data.userID)
    (hconv : before.Converging notice.data.userID notice) :
    after.Informed notice.data.userID notice dstID := by
  left
  rw [hdel.handled] at hokay ⊢
  rcases Server.handle_cases hcons huser hokay with
    ⟨hsame, hlater, hmissed⟩ | ⟨-, info, hinfo, hrecords⟩ |
      ⟨-, -, info, hinfo, hstatus, htime⟩
  · rw [hsame]
    cases hentry : (before.servers dstID).entry notice.data.userID with
    | none =>
        have hhead := hintro.first dstID hdel.dst_mem hentry srcID notice
          (by rw [hdel.waiting_front]; rfl)
        rw [hmissed hentry] at hhead
        simp at hhead
    | some info =>
        have hnewer := hlater info hentry
        refine ⟨info, rfl, hnewer.le, ?_⟩
        left
        cases hstatus : info.status with
        | unactive => rfl
        | active =>
            have hle := hconv.active_le dstID hdel.dst_mem info hentry hstatus
            omega
  · refine ⟨info, hinfo, hrecords.2.2.2.ge, ?_⟩
    cases hstatus : notice.status with
    | active =>
        rw [hstatus] at hrecords
        exact Or.inr ⟨rfl, hrecords⟩
    | unactive =>
        left
        rw [hrecords.2.2.1, hstatus]
  · refine ⟨info, hinfo, ?_, Or.inl hstatus⟩
    rw [htime]
    exact hconv.time_le

/-- A notice older than the entry changes nothing. -/
theorem Delivers.entry_eq_of_older
    {info : ShmGnsInfo}
    (hinfo : (before.servers dstID).entry notice.data.userID = some info)
    (holder : notice.data.time < info.lastActiveTime) :
    after.servers dstID = before.servers dstID := by
  rw [hdel.handled] at hokay ⊢
  rcases Server.handle_cases hcons huser hokay with
    ⟨hsame, -, -⟩ | ⟨htimes, -⟩ | ⟨-, ⟨found, hfound, -, -, htime⟩, -⟩
  · exact hsame
  · have hle := htimes info hinfo
    omega
  · rw [hinfo, Option.some.injEq] at hfound
    subst hfound
    omega

theorem Converging.active_le_delivers
    (hconv : before.Converging notice.data.userID newest)
    {info : ShmGnsInfo}
    (hinfo : (after.servers dstID).entry notice.data.userID = some info)
    (hactive : info.status = .active) :
    info.lastActiveTime ≤ newest.data.time := by
  have hnotice := hconv.waiting_older srcID dstID notice
    (by rw [hdel.waiting_front]; simp)
  rw [hdel.handled] at hokay hinfo
  rcases Server.handle_cases hcons huser hokay with
    ⟨hsame, -, -⟩ | ⟨-, found, hfound, hrecords⟩ |
      ⟨-, -, found, hfound, hstatus, -⟩
  · rw [hsame] at hinfo
    exact hconv.active_le dstID hdel.dst_mem info hinfo hactive
  · rw [hinfo, Option.some.injEq] at hfound
    rw [hfound, hrecords.2.2.2]
    omega
  · rw [hinfo, Option.some.injEq] at hfound
    rw [hfound, hstatus] at hactive
    simp at hactive

/-- The receiver still waits for the newest notice, or has taken note of it. -/
theorem Converging.informed_delivers
    (hintro : before.Introduced notice.data.userID)
    (hconv : before.Converging notice.data.userID newest) :
    dstID ≠ newest.data.serverID ∧
        after.waitingAbout notice.data.userID newest.data.serverID dstID ≠
          [] ∨
      after.Informed notice.data.userID newest dstID := by
  have hfront : notice ∈
      before.waitingAbout notice.data.userID srcID dstID := by
    rw [hdel.waiting_front]
    simp
  by_cases hnews : dstID ≠ newest.data.serverID ∧
      before.waitingAbout notice.data.userID newest.data.serverID dstID ≠ []
  · by_cases hsrc : srcID = newest.data.serverID
    · cases hrest : after.waitingAbout notice.data.userID srcID dstID with
      | cons first rest =>
          left
          rw [← hsrc, hrest]
          exact ⟨hsrc ▸ hnews.1, by simp⟩
      | nil =>
          right
          -- the channel ends with the newest notice
          have hlast : notice = newest := by
            apply hconv.waiting_last dstID hdel.dst_mem hnews.1
            rw [← hsrc, hdel.waiting_front, hrest]
            rfl
          subst hlast
          exact hconv.informed_newest hdel hcons huser hokay hintro
    · left
      rw [hdel.waiting_eq]
      · exact hnews
      · rw [ne_eq, Prod.mk.injEq]
        exact fun hchannel => hsrc hchannel.1.symm
  · right
    rcases (hconv.informed dstID hdel.dst_mem).resolve_left hnews with
      ⟨info, hinfo, htime, hstate⟩ | ⟨-, hsilent⟩
    · have holder : notice.data.time < info.lastActiveTime := by
        rcases hconv.waiting_older srcID dstID notice hfront with
          holder | ⟨hsrc, -⟩
        · omega
        · exfalso
          apply hnews
          rw [← hsrc]
          exact ⟨hdel.foreign.symm, List.ne_nil_of_mem hfront⟩
      left
      rw [hdel.entry_eq_of_older hcons huser hokay hinfo holder]
      exact ⟨info, hinfo, htime, hstate⟩
    · rw [hsilent] at hfront
      simp at hfront

theorem Converging.delivers
    (hintro : before.Introduced notice.data.userID)
    (hconv : before.Converging notice.data.userID newest) :
    after.Converging notice.data.userID newest := by
  constructor
  · rw [hdel.recorded]
    exact hconv.recorded
  · exact hconv.user
  · rw [hdel.members]
    exact hconv.home_mem
  · rw [hdel.now_eq]
    exact hconv.time_le
  · intro fromID toID found hfound
    exact hconv.waiting_older fromID toID found (hdel.mem_waiting hfound)
  · intro toID hmember hne found hlast
    rw [hdel.members] at hmember
    apply hconv.waiting_last toID hmember hne found
    by_cases hchannel : (newest.data.serverID, toID) = (srcID, dstID)
    · rw [Prod.mk.injEq] at hchannel
      rw [hchannel.1, hchannel.2] at hlast ⊢
      rw [hdel.waiting_front, List.getLast?_cons]
      rw [Option.mem_def.mp hlast]
      rfl
    · rw [hdel.waiting_eq _ _ hchannel] at hlast
      exact hlast
  · intro serverID hmember info hinfo hactive
    rw [hdel.members] at hmember
    by_cases hserver : serverID = dstID
    · subst hserver
      exact hconv.active_le_delivers hdel hcons huser hokay hinfo hactive
    · rw [hdel.others serverID hserver] at hinfo
      exact hconv.active_le serverID hmember info hinfo hactive
  · intro hactive
    rcases hconv.home hactive with ⟨hopen, info, hinfo, hrecords⟩
    have hsame : after.servers newest.data.serverID =
        before.servers newest.data.serverID := by
      by_cases hserver : newest.data.serverID = dstID
      · have holder : notice.data.time < info.lastActiveTime := by
          rw [hrecords.2.2.2]
          rcases hconv.waiting_older srcID dstID notice
            (by rw [hdel.waiting_front]; simp) with holder | ⟨hsrc, -⟩
          · exact holder
          · exact (hdel.foreign (hsrc.trans hserver)).elim
        rw [hserver] at hinfo ⊢
        exact hdel.entry_eq_of_older hcons huser hokay hinfo holder
      · exact hdel.others _ hserver
    unfold SessionOpen
    rw [hsame]
    exact ⟨hopen, info, hinfo, hrecords⟩
  · intro serverID hmember
    rw [hdel.members] at hmember
    by_cases hserver : serverID = dstID
    · subst hserver
      exact hconv.informed_delivers hdel hcons huser hokay hintro
    · unfold Informed
      simp only [hdel.waiting_other hserver, hdel.others serverID hserver]
      exact hconv.informed serverID hmember

theorem Settled.delivers (hsettled : before.Settled notice.data.userID) :
    after.Settled notice.data.userID := by
  refine ⟨hsettled.1.delivers hdel hcons huser hokay, ?_⟩
  right
  rcases hsettled.2 with hnone | ⟨newest, hconv⟩
  · have hfront := hdel.waiting_front
    rw [hnone.silent] at hfront
    simp at hfront
  · exact ⟨newest, hconv.delivers hdel hcons huser hokay hsettled.1⟩

end Delivery

/-! ## An entry is removed -/

/-- Nothing about the user is in flight, and the user has no session. -/
def Idle (cluster : Cluster) (userID : UInt64) : Prop :=
  (∀ message ∈ cluster.inFlight, message.about userID = []) ∧
    ∀ login ∈ cluster.logins, login.userID = userID →
      ¬ cluster.SessionOpen userID login.serverID login.connPos

theorem Idle.no_session
    (hidle : cluster.Idle userID) (hknown : cluster.LoginsKnown)
    (hserver : (cluster.servers serverID).serverID = serverID)
    (hsound : (cluster.servers serverID).Sound) (huser : userID ≠ 0)
    (connPos : UInt32) :
    (cluster.servers serverID).userAt connPos ≠ some userID := by
  intro hconn
  rcases hsound userID connPos huser hconn with
    ⟨info, hinfo, hown, hpos, hactive⟩
  have hlogin := (hknown.servers serverID userID info hinfo).2 hactive
  apply hidle.2 _ hlogin rfl
  dsimp only
  rw [hown, hserver, hpos]
  exact hconn

theorem Idle.silent (hidle : cluster.Idle userID) (srcID dstID : ℤ) :
    cluster.waitingAbout userID srcID dstID = [] :=
  waiting_eq_nil fun message hmessage _ => hidle.1 message hmessage

/-- Servers have dropped their entries for a user, and nothing else has
changed. -/
structure Forgets (userID : UInt64) (before after : Cluster) : Prop where
  members : after.members = before.members
  now_eq : after.now = before.now
  recorded : after.logins ++ after.closes = before.logins ++ before.closes
  inFlight : after.inFlight = before.inFlight
  userAt : ∀ serverID connPos,
    (after.servers serverID).userAt connPos =
      (before.servers serverID).userAt connPos
  entry : ∀ serverID, (after.servers serverID).entry userID = none ∨
    (after.servers serverID).entry userID =
      (before.servers serverID).entry userID

section Forgetting

variable (hforgets : Forgets userID before after)
  (hidle : before.Idle userID)
  (hsessions : ∀ serverID ∈ before.members, ∀ connPos,
    (before.servers serverID).userAt connPos ≠ some userID)

include hforgets hidle

theorem Forgets.silent (srcID dstID : ℤ) :
    after.waitingAbout userID srcID dstID = [] := by
  unfold waitingAbout
  rw [hforgets.inFlight]
  exact hidle.silent srcID dstID

theorem Untouched.forget (hnone : before.Untouched userID) :
    after.Untouched userID := by
  constructor
  · rw [hforgets.recorded]
    exact hnone.recorded
  · intro serverID
    rcases hforgets.entry serverID with hgone | hkept
    · exact hgone
    · rw [hkept]
      exact hnone.entry_none serverID
  · intro serverID connPos
    rw [hforgets.userAt]
    exact hnone.no_session serverID connPos
  · exact hforgets.silent hidle

theorem Converging.informed_forget
    (hconv : before.Converging userID newest)
    (hmember : serverID ∈ before.members) :
    after.Informed userID newest serverID := by
  have hsilent : ∀ srcID, after.waitingAbout userID srcID serverID = [] :=
    fun srcID => hforgets.silent hidle srcID serverID
  rcases hforgets.entry serverID with hgone | hkept
  · exact Or.inr ⟨hgone, hsilent⟩
  · unfold Informed
    rw [hkept]
    rcases hconv.informed serverID hmember with
      ⟨-, hnews⟩ | hinformed | ⟨hnone, -⟩
    · exact (hnews (hidle.silent _ serverID)).elim
    · exact Or.inl hinformed
    · exact Or.inr ⟨hnone, hsilent⟩

include hsessions

theorem Converging.forget (hconv : before.Converging userID newest) :
    after.Converging userID newest := by
  constructor
  · rw [hforgets.recorded]
    exact hconv.recorded
  · exact hconv.user
  · rw [hforgets.members]
    exact hconv.home_mem
  · rw [hforgets.now_eq]
    exact hconv.time_le
  · intro srcID dstID notice hnotice
    rw [hforgets.silent hidle] at hnotice
    simp at hnotice
  · intro dstID _ _ notice hlast
    rw [hforgets.silent hidle] at hlast
    simp at hlast
  · intro serverID hmember info hinfo hactive
    rw [hforgets.members] at hmember
    rcases hforgets.entry serverID with hgone | hkept
    · rw [hgone] at hinfo
      simp at hinfo
    · rw [hkept] at hinfo
      exact hconv.active_le serverID hmember info hinfo hactive
  · intro hactive
    exact (hsessions _ hconv.home_mem _ (hconv.home hactive).1).elim
  · intro serverID hmember
    rw [hforgets.members] at hmember
    exact Or.inr (hconv.informed_forget hforgets hidle hmember)

theorem Settled.forget (hsettled : before.Settled userID) :
    after.Settled userID := by
  constructor
  · constructor
    · intro serverID _ _ srcID notice hhead
      rw [hforgets.silent hidle] at hhead
      simp at hhead
    · rintro serverID hmember _ _ _ ⟨connPos, hconn⟩
      rw [hforgets.members] at hmember
      rw [hforgets.userAt] at hconn
      exact (hsessions serverID hmember connPos hconn).elim
  · rcases hsettled.2 with hnone | ⟨newest, hconv⟩
    · exact Or.inl (hnone.forget hforgets hidle)
    · exact Or.inr ⟨newest, hconv.forget hforgets hidle hsessions⟩

end Forgetting

end Cluster

end MessageBus.Conn
