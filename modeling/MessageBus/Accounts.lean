import MessageBus.LoginBinding
import MessageBus.Numerals
import MessageBus.Passwords

/-!
# Accounts

Conn server, auth service and database together: users are registered while
connections come and go, log in and are answered late or never.  What
`LoginBinding` leaves to chance, the answer of the database to `LoginCheck`, is
here read from the tables that `Register` writes to.

A password is bytes in the statements and a `String` in the requests; every
byte is a character.
-/

namespace MessageBus.Auth

open Conn (Text LoginSystem LoginEvent LoginReq AuthLoginReq QueryResult Receipt)
open SqlText
open Transition

def byteChar (byte : UInt8) : Char where
  val := byte.toUInt32
  valid := Or.inl (by
    have hlt := byte.toNat_lt
    rw [UInt8.toNat_toUInt32]
    omega)

def passwdString (text : Text) : String := String.ofList (text.map byteChar)

theorem passwdString_inj {text other : Text} :
    passwdString text = passwdString other ↔ text = other := by
  unfold passwdString
  rw [String.ofList_inj]
  apply List.map_inj_right
  intro byte next heq
  exact UInt8.toUInt32_inj.mp (congrArg Char.val heq)

theorem passwdString_eq_empty {text : Text} :
    passwdString text = "" ↔ text = [] :=
  @passwdString_inj text []

/-! ## The tables -/

/-- The database servers behind `m_DBConn`, with the password of every user. -/
structure Tables where
  State : Type
  query : ℕ → Text → State → Reply × State
  passwd : UInt64 → State → Option Text

abbrev Tables.mysql (tables : Tables) (userID : UInt64) : MySql where
  State := tables.State
  query := tables.query
  passwd := tables.passwd userID

/-- What the code relies on; `userid` is the key of its table. -/
structure Tables.Keyed (dbConfig : ℕ → DBConfig) (tables : Tables)
    (unescape : UInt8 → UInt8) : Prop where
  documented : ∀ userID,
    Documented dbConfig (tables.mysql userID) userID unescape
  others : ∀ userID other body value state,
    literals unescape (insertText dbConfig userID body) = some [value] →
    other ≠ userID →
    tables.passwd other (tables.query (getUserDBIndex userID)
      (insertText dbConfig userID body) state).2 = tables.passwd other state
  duplicate : ∀ userID body value state,
    literals unescape (insertText dbConfig userID body) = some [value] →
    tables.passwd userID state ≠ none →
    tables.query (getUserDBIndex userID) (insertText dbConfig userID body)
      state = (.failed, state)

/-- The rows of a reply as `LoginCheck` of the conn server's model takes
them. -/
def Reply.result : Reply → QueryResult
  | .failed => .failed
  | .rows [] => .noRecord
  | .rows (row :: _) => .record (row.map passwdString)

/-! ## The services together -/

structure Accounts (tables : Tables) where
  logins : LoginSystem
  state : tables.State
  -- the password of every user whom `Register` has returned 0 for
  registered : UInt64 → Option Text

/-- What happens next; `up` is false when the database does not answer. -/
inductive AccountEvent where
  -- anything but an answer of the database
  | login (event : LoginEvent)
  | loginCheck (index : ℕ) (up queued : Bool)
  -- `time` has returned `userID`
  | register (userID : UInt64) (strPasswd : Text) (up : Bool)

namespace Accounts

variable (dbConfig : ℕ → DBConfig) (tables : Tables) (stack : ℕ → UInt8)

/-- What `LoginCheck` gets for a user. -/
def queryResult (state : tables.State) (userID : UInt64) (up : Bool) : QueryResult :=
  if up then
    (tables.query (getUserDBIndex userID)
      (handed stack (selectText dbConfig userID)) state).1.result
  else .failed

def step (fuel : ℕ) (accounts : Accounts tables) :
    AccountEvent → Option (Accounts tables)
  | .login (.loginCheck _ _ _) => none
  | .login event =>
      (accounts.logins.step fuel event).map fun logins =>
        { accounts with logins := logins }
  | .loginCheck index up queued => do
      let (_, request) ← accounts.logins.requests[index]?
      let query := queryResult dbConfig tables stack accounts.state request.userid up
      let logins ← accounts.logins.step fuel (.loginCheck index query queued)
      return { accounts with logins := logins }
  | .register userID strPasswd up =>
      if up then
        let (ret, state) :=
          register dbConfig (tables.mysql userID) stack userID strPasswd
            accounts.state
        some { accounts with
          state := state
          registered :=
            if ret = 0 then
              Function.update accounts.registered userID (some strPasswd)
            else accounts.registered }
      else some accounts

/-- A password that the statement of `Register` can hold. -/
structure Printable (userID : UInt64) (strPasswd : Text) : Prop where
  nonempty : strPasswd ≠ []
  safe : Safe strPasswd
  fits : (insertText dbConfig userID strPasswd).length < sqlStrSize

theorem printable_iff {userID : UInt64} {strPasswd : Text} :
    Printable dbConfig userID strPasswd ↔
      strPasswd ≠ [] ∧
      strPasswd.all (fun byte =>
        byte ≠ 0 ∧ byte ≠ quote ∧ byte ≠ backslash) = true ∧
      (insertText dbConfig userID strPasswd).length < sqlStrSize := by
  rw [List.all_eq_true]
  simp only [decide_eq_true_eq]
  exact ⟨fun h => ⟨h.nonempty, h.safe, h.fits⟩,
    fun h => ⟨h.1, h.2.1, h.2.2⟩⟩

instance (userID : UInt64) (strPasswd : Text) :
    Decidable (Printable dbConfig userID strPasswd) :=
  decidable_of_iff
    (strPasswd ≠ [] ∧
      strPasswd.all (fun byte =>
        byte ≠ 0 ∧ byte ≠ quote ∧ byte ≠ backslash) = true ∧
      (insertText dbConfig userID strPasswd).length < sqlStrSize)
    (printable_iff dbConfig).symm

def Orderly (fuel : ℕ) (accounts : Accounts tables) : AccountEvent → Prop
  | .login event => accounts.logins.Distinguishable fuel event
  | .loginCheck index up queued =>
      ∀ pending ∈ accounts.logins.requests[index]?,
        accounts.logins.Distinguishable fuel (.loginCheck index
          (queryResult dbConfig tables stack accounts.state pending.2.userid up)
          queued)
  | .register userID strPasswd _ => Printable dbConfig userID strPasswd

instance (fuel : ℕ) (accounts : Accounts tables) (event : AccountEvent) :
    Decidable (Orderly dbConfig tables stack fuel accounts event) :=
  match event with
  | .login event =>
      inferInstanceAs (Decidable (accounts.logins.Distinguishable fuel event))
  | .loginCheck _ _ _ => Option.decidableForallMem _
  | .register userID strPasswd _ =>
      inferInstanceAs (Decidable (Printable dbConfig userID strPasswd))

/-- No connection yet; the tables may hold accounts. -/
def start (serverID : ℤ) (gnsCapacity now : ℕ) (state : tables.State) :
    Accounts tables where
  logins := LoginSystem.start serverID gnsCapacity now
  state := state
  registered := fun userID => tables.passwd userID state

/-! ## What the tables answer -/

section Tables

variable {dbConfig : ℕ → DBConfig} {tables : Tables} {stack : ℕ → UInt8}
  {unescape : UInt8 → UInt8} {state : tables.State} {userID : UInt64}
  {strPasswd : Text}

theorem queryResult_eq (hkeyed : tables.Keyed dbConfig unescape) :
    queryResult dbConfig tables stack state userID true =
      match tables.passwd userID state with
      | none => .noRecord
      | some text => .record (some (passwdString text)) := by
  have hselect := (hkeyed.documented userID).select state
  change (tables.query _ _ state).1 =
    .rows ((tables.passwd userID state).map some).toList at hselect
  unfold queryResult
  rw [if_pos rfl, handed_of_fits length_selectText_lt, hselect]
  cases tables.passwd userID state with
  | none => rfl
  | some text => rfl

/-- `LoginCheck` accepts the password of the user's row and no other. -/
theorem loginCheck_eq_zero_iff
    (hkeyed : tables.Keyed dbConfig unescape) (up : Bool) (passwd : String) :
    Conn.loginCheck
        (queryResult dbConfig tables stack state userID up) passwd = 0 ↔
      up = true ∧ ∃ text, tables.passwd userID state = some text ∧
        text ≠ [] ∧ passwd = passwdString text := by
  cases up with
  | false => simp [queryResult, Conn.loginCheck]
  | true =>
      rw [queryResult_eq hkeyed]
      cases tables.passwd userID state with
      | none => simp [Conn.loginCheck]
      | some text =>
          simp only [Conn.loginCheck, passwdString_eq_empty,
            Option.some.injEq, exists_eq_left', true_and]
          split_ifs with hempty hother
          · exact iff_of_false (by decide) fun h => h.1 hempty
          · exact iff_of_false (by decide) fun h => hother h.2.symm
          · exact iff_of_true rfl ⟨hempty, (not_not.mp hother).symm⟩

theorem literals_of_printable
    (hprintable : Printable dbConfig userID strPasswd) :
    literals unescape (insertText dbConfig userID strPasswd) =
      some [strPasswd] :=
  (literals_insertText_iff le_rfl).mpr ⟨hprintable.safe.plain, rfl⟩

/-- `Register` gives its statement to the database as it was printed. -/
theorem register_eq (hprintable : Printable dbConfig userID strPasswd) :
    register dbConfig (tables.mysql userID) stack userID strPasswd state =
      match tables.query (getUserDBIndex userID)
        (insertText dbConfig userID strPasswd) state with
      | (.failed, after) => (1, after)
      | (.rows _, after) => (0, after) := by
  have hcStr : cStr strPasswd = strPasswd :=
    cStr_of_ne_zero fun byte hbyte => (hprintable.safe byte hbyte).1
  unfold register
  simp only [hcStr, handed_of_fits hprintable.fits]
  rcases tables.query (getUserDBIndex userID)
    (insertText dbConfig userID strPasswd) state with ⟨reply, after⟩
  cases reply with
  | failed => rfl
  | rows rows => rfl

variable (stack state) in
/-- A user who has no row gets one, and nobody else's row changes; a user who
has a row keeps it. -/
theorem register_spec
    (hkeyed : tables.Keyed dbConfig unescape)
    (hprintable : Printable dbConfig userID strPasswd) :
    (tables.passwd userID state ≠ none ∧
        register dbConfig (tables.mysql userID) stack userID strPasswd state =
          (1, state)) ∨
      ∃ after, tables.passwd userID state = none ∧
        register dbConfig (tables.mysql userID) stack userID strPasswd state =
          (0, after) ∧
        ∀ other, tables.passwd other after =
          Function.update (fun user => tables.passwd user state) userID
            (some strPasswd) other := by
  have hliteral : literals unescape (insertText dbConfig userID strPasswd) =
      some [strPasswd] := literals_of_printable hprintable
  rw [register_eq hprintable]
  by_cases hnew : tables.passwd userID state = none
  · right
    obtain ⟨after, hquery, hpasswd⟩ :=
      (hkeyed.documented userID).insert _ _ state hliteral hnew
    change tables.query _ _ state = _ at hquery
    refine ⟨after, hnew, by rw [hquery], fun other => ?_⟩
    by_cases hother : other = userID
    · subst hother
      rw [Function.update_self]
      exact hpasswd
    · have hkept := hkeyed.others userID other _ _ state hliteral hother
      rw [hquery] at hkept
      rw [Function.update_of_ne hother]
      exact hkept
  · left
    rw [hkeyed.duplicate userID _ _ state hliteral hnew]
    exact ⟨hnew, rfl⟩

end Tables

/-! ## What every step keeps -/

/-- The request that auth is given is the one that the client has sent. -/
def Faithful (pending : Receipt × AuthLoginReq) : Prop :=
  pending.2.userid = pending.1.req.userid ∧
    pending.2.passwd = pending.1.req.passwd

/-- The client has sent the password of the account. -/
def Proven (registered : UInt64 → Option Text) (receipt : Receipt) : Prop :=
  ∃ text, registered receipt.req.userid = some text ∧
    receipt.req.passwd = passwdString text

structure Kept {tables : Tables} (accounts : Accounts tables) : Prop where
  bound : accounts.logins.Bound
  rows : ∀ userID,
    tables.passwd userID accounts.state = accounts.registered userID
  requests : ∀ pending ∈ accounts.logins.requests, Faithful pending
  accepted : ∀ receipt ∈ accounts.logins.accepted,
    Proven accounts.registered receipt

section Steps

variable {dbConfig : ℕ → DBConfig} {tables : Tables} {stack : ℕ → UInt8}
  {unescape : UInt8 → UInt8} {accounts after : Accounts tables} {fuel : ℕ}
  {logins : LoginSystem}

theorem start_kept
    (serverID : ℤ) (gnsCapacity now : ℕ) (state : tables.State) :
    (start tables serverID gnsCapacity now state).Kept where
  bound := LoginSystem.start_bound serverID gnsCapacity now
  rows := fun _ => rfl
  requests := by simp [start, LoginSystem.start]
  accepted := by simp [start, LoginSystem.start]

/-- Only the answers of the database let auth accept a request. -/
theorem requests_of_login
    {before : LoginSystem} {event : LoginEvent}
    (hevent : ∀ index query queued, event ≠ .loginCheck index query queued)
    (hrequests : ∀ pending ∈ before.requests, Faithful pending)
    (hstep : before.step fuel event = some logins) :
    logins.accepted = before.accepted ∧
      ∀ pending ∈ logins.requests, Faithful pending := by
  cases event with
  | acceptConn ready =>
      cases ready with
      | false =>
          obtain ⟨conn, -, rfl⟩ := Option.map_eq_some_iff.mp hstep
          exact ⟨rfl, hrequests⟩
      | true =>
          simp only [LoginSystem.step, Option.bind_eq_bind, Option.pure_def]
            at hstep
          obtain ⟨found, -, hrest⟩ := Option.bind_eq_some_iff.mp hstep
          obtain ⟨conn, -, hafter⟩ := Option.bind_eq_some_iff.mp hrest
          rw [← Option.some.inj hafter]
          exact ⟨rfl, hrequests⟩
  | loginReq connPos req queued =>
      simp only [LoginSystem.step, Option.bind_eq_bind, Option.pure_def]
        at hstep
      obtain ⟨request, hrequest, hafter⟩ := Option.bind_eq_some_iff.mp hstep
      obtain ⟨info, -, rfl⟩ := Option.map_eq_some_iff.mp hrequest
      rw [← Option.some.inj hafter]
      refine ⟨rfl, fun pending hpending => ?_⟩
      obtain hold | hnew := List.mem_append.mp hpending
      · exact hrequests pending hold
      · split_ifs at hnew
        · rw [List.mem_singleton.mp hnew]
          exact ⟨rfl, rfl⟩
        · cases hnew
  | loginRsp index =>
      simp only [LoginSystem.step, Option.bind_eq_bind, Option.pure_def]
        at hstep
      obtain ⟨response, -, hafter⟩ := Option.bind_eq_some_iff.mp hstep
      rw [← Option.some.inj hafter]
      exact ⟨rfl, hrequests⟩
  | loginCheck index query queued => exact absurd rfl (hevent index query queued)
  | advance seconds =>
      rw [← Option.some.inj hstep]
      exact ⟨rfl, hrequests⟩
  | releaseConn connPos =>
      rw [← Option.some.inj hstep]
      exact ⟨rfl, hrequests⟩
  | dealPkg srcID body =>
      rw [← Option.some.inj hstep]
      exact ⟨rfl, hrequests⟩
  | checkValid =>
      rw [← Option.some.inj hstep]
      exact ⟨rfl, hrequests⟩
  | restart =>
      rw [← Option.some.inj hstep]
      exact ⟨rfl, hrequests⟩

theorem Kept.login
    (h : accounts.Kept) {event : LoginEvent}
    (hevent : ∀ index query queued, event ≠ .loginCheck index query queued)
    (hallowed : accounts.logins.Distinguishable fuel event)
    (hstep : accounts.logins.step fuel event = some logins) :
    ({ accounts with logins := logins } : Accounts tables).Kept := by
  obtain ⟨haccepted, hrequests⟩ :=
    requests_of_login hevent h.requests hstep
  refine ⟨h.bound.step hallowed hstep, h.rows, hrequests, ?_⟩
  rw [haccepted]
  exact h.accepted

theorem Kept.loginCheck
    (h : accounts.Kept) (hkeyed : tables.Keyed dbConfig unescape)
    {index : ℕ} {up queued : Bool}
    (hallowed : Orderly dbConfig tables stack fuel accounts
      (.loginCheck index up queued))
    (hstep : step dbConfig tables stack fuel accounts
      (.loginCheck index up queued) = some after) : after.Kept := by
  simp only [step, Option.bind_eq_bind, Option.pure_def] at hstep
  obtain ⟨⟨receipt, request⟩, hrequest, hrest⟩ :=
    Option.bind_eq_some_iff.mp hstep
  obtain ⟨logins, hlogins, hafter⟩ := Option.bind_eq_some_iff.mp hrest
  rw [← Option.some.inj hafter]
  refine ⟨h.bound.step (hallowed _ hrequest) hlogins, h.rows, ?_, ?_⟩
  all_goals
    simp only [LoginSystem.step, hrequest, Option.bind_eq_bind,
      Option.bind_some, Option.pure_def, Option.some.injEq] at hlogins
    subst hlogins
  · intro pending hpending
    exact h.requests pending (List.mem_of_mem_eraseIdx hpending)
  · intro other hother
    obtain hold | hnew := List.mem_append.mp hother
    · exact h.accepted other hold
    · split_ifs at hnew with hret
      · rw [List.mem_singleton.mp hnew]
        obtain ⟨huser, hpasswd⟩ :=
          h.requests _ (List.mem_of_getElem? hrequest)
        dsimp only at huser hpasswd
        obtain ⟨-, text, htext, -, hsame⟩ :=
          (loginCheck_eq_zero_iff hkeyed up request.passwd).mp hret
        refine ⟨text, ?_, hpasswd ▸ hsame⟩
        rw [← huser, ← h.rows]
        exact htext
      · cases hnew

/-- A new account changes nobody's password. -/
theorem Kept.store
    (h : accounts.Kept) {state : tables.State} {userID : UInt64}
    (hnew : accounts.registered userID = none) (strPasswd : Text)
    (hrows : ∀ other, tables.passwd other state =
      Function.update accounts.registered userID (some strPasswd) other) :
    ({ accounts with
      state := state
      registered := Function.update accounts.registered userID
        (some strPasswd) } : Accounts tables).Kept where
  bound := h.bound
  rows := hrows
  requests := h.requests
  accepted := by
    intro receipt hreceipt
    obtain ⟨text, htext, hsame⟩ := h.accepted receipt hreceipt
    have hother : receipt.req.userid ≠ userID := by
      intro heq
      rw [heq, hnew] at htext
      cases htext
    exact ⟨text, (Function.update_of_ne hother _ _).trans htext, hsame⟩

theorem Kept.register
    (h : accounts.Kept) (hkeyed : tables.Keyed dbConfig unescape)
    {userID : UInt64} {strPasswd : Text} {up : Bool}
    (hprintable : Printable dbConfig userID strPasswd)
    (hstep : step dbConfig tables stack fuel accounts
      (.register userID strPasswd up) = some after) : after.Kept := by
  have hregistered : (fun user => tables.passwd user accounts.state) =
      accounts.registered := funext h.rows
  cases up with
  | false =>
      rw [← Option.some.inj hstep]
      exact h
  | true =>
      simp only [step, if_true] at hstep
      obtain ⟨-, hregister⟩ | ⟨state, hnew, hregister, hrows⟩ :=
        register_spec stack accounts.state hkeyed hprintable
      · simp only [hregister, one_ne_zero, if_false] at hstep
        rw [← Option.some.inj hstep]
        exact h
      · simp only [hregister, if_true] at hstep
        rw [← Option.some.inj hstep]
        rw [hregistered] at hrows
        exact h.store ((h.rows userID).symm.trans hnew) strPasswd hrows

theorem Kept.step
    (h : accounts.Kept) (hkeyed : tables.Keyed dbConfig unescape)
    {event : AccountEvent}
    (hallowed : Orderly dbConfig tables stack fuel accounts event)
    (hstep : step dbConfig tables stack fuel accounts event = some after) :
    after.Kept := by
  cases event with
  | loginCheck index up queued => exact h.loginCheck hkeyed hallowed hstep
  | register userID strPasswd up => exact h.register hkeyed hallowed hstep
  | login event =>
      have hevent : ∀ index query queued,
          event ≠ .loginCheck index query queued := by
        rintro index query queued rfl
        cases hstep
      have hlogin : (accounts.logins.step fuel event).map
          (fun logins => ({ accounts with logins := logins } :
            Accounts tables)) = some after := by
        cases event with
        | loginCheck index query queued =>
            exact absurd rfl (hevent index query queued)
        | _ => exact hstep
      obtain ⟨logins, hlogins, hafter⟩ := Option.map_eq_some_iff.mp hlogin
      rw [← hafter]
      exact h.login hevent hallowed hlogins

end Steps

/-- An authenticated connection of a user below `2 ^ 31` has sent a request for
that user. -/
theorem receipt_of_bound
    {logins : LoginSystem} (hbound : logins.Bound) {connPos : UInt32}
    {conn : Conn.ConnInfo}
    (hconn : logins.conn.posConnMap connPos = some conn)
    (hauth : conn.connType = .connAuth)
    (hsmall : conn.userID.toNat < 2 ^ 31) :
    ∃ receipt ∈ logins.accepted,
      receipt.connection = logins.connections connPos ∧
        receipt.req.userid = conn.userID := by
  obtain ⟨receipt, happroved, hconnection, huser⟩ :=
    hbound.authenticated connPos conn hconn hauth
  refine ⟨receipt, happroved.mem, hconnection, ?_⟩
  rw [huser] at hsmall ⊢
  have hlower := Conn.toNat_widen_narrow hsmall
  apply UInt64.toNat_inj.mp
  rw [hlower]
  obtain hshort | hlarge := happroved.distinct
  · exact (Nat.mod_eq_of_lt hshort).symm
  · omega

/-- In every run, an authenticated connection has itself sent the password with
which its user was registered; and auth accepts a request that waits exactly
when it carries that password. -/
theorem sessions_have_passwords
    {dbConfig : ℕ → DBConfig} {tables : Tables} {unescape : UInt8 → UInt8}
    (hkeyed : tables.Keyed dbConfig unescape) (stack : ℕ → UInt8) (fuel : ℕ)
    {serverID : ℤ} {gnsCapacity now : ℕ} {state : tables.State}
    {accounts : Accounts tables}
    (hrun : Reaches (step dbConfig tables stack fuel)
      (Orderly dbConfig tables stack fuel)
      (start tables serverID gnsCapacity now state) accounts) :
    (∀ connPos conn,
        accounts.logins.conn.posConnMap connPos = some conn →
        conn.connType = .connAuth → conn.userID.toNat < 2 ^ 31 →
        ∃ receipt ∈ accounts.logins.received, ∃ text,
          receipt.connection = accounts.logins.connections connPos ∧
          receipt.req.userid = conn.userID ∧
          accounts.registered conn.userID = some text ∧
          receipt.req.passwd = passwdString text) ∧
      ∀ pending ∈ accounts.logins.requests, ∀ up,
        (pending.2.answer (queryResult dbConfig tables stack accounts.state
            pending.2.userid up)).ret = 0 ↔
          up = true ∧ ∃ text,
            accounts.registered pending.1.req.userid = some text ∧
              text ≠ [] ∧ pending.1.req.passwd = passwdString text := by
  have hkept : accounts.Kept := by
    apply hrun.invariant Kept (start_kept serverID gnsCapacity now state)
    intro before after event hbefore hallowed hstep
    exact hbefore.step hkeyed hallowed hstep
  refine ⟨fun connPos conn hconn hauth hsmall => ?_, fun pending hpending up => ?_⟩
  · obtain ⟨receipt, haccepted, hconnection, huser⟩ :=
      receipt_of_bound hkept.bound hconn hauth hsmall
    obtain ⟨text, htext, hpasswd⟩ := hkept.accepted receipt haccepted
    exact ⟨receipt, hkept.bound.accepted_received haccepted, text,
      hconnection, huser, huser ▸ htext, hpasswd⟩
  · obtain ⟨huser, hpasswd⟩ := hkept.requests pending hpending
    rw [← huser, ← hpasswd, ← hkept.rows]
    exact loginCheck_eq_zero_iff hkeyed up pending.2.passwd

/-! ## A database -/

/-- The user's number as it stands in a statement: behind the last `=` of a
select statement, behind the second `(` of an insert statement. -/
def keyText (text : Text) : Text :=
  if text.head? = some 115 then (text.reverse.takeWhile (· ≠ 61)).reverse
  else
    let names := (text.dropWhile (· ≠ 40)).drop 1
    ((names.dropWhile (· ≠ 40)).drop 1).takeWhile (· ≠ 44)

/-- One table of passwords under the texts of the users' numbers. -/
def keyedTables : Tables where
  State := Text → Option Text
  query := fun _ text state =>
    if text.head? = some 115 then
      (.rows ((state (keyText text)).map some).toList, state)
    else
      match literals id text, state (keyText text) with
      | some [value], none =>
          (.rows [], Function.update state (keyText text) (some value))
      | _, _ => (.failed, state)
  passwd := fun userID state => state (decimal userID.toNat)

section Database

variable {dbConfig : ℕ → DBConfig} {userID other : UInt64} {body : Text}

theorem decimal_eq_natText (number : ℕ) :
    decimal number = Numerals.natText number := by
  have hbyte : ∀ digit : ℕ,
      (48 + digit).toUInt8 = Numerals.byteOfDigit digit := fun digit =>
    UInt8.ofNat_add 48 digit
  simp only [decimal, Numerals.natText, Numerals.numeral, hbyte]
  split_ifs <;> rfl

theorem decimal_inj {number next : ℕ} :
    decimal number = decimal next ↔ number = next := by
  constructor
  · intro heq
    rw [decimal_eq_natText, decimal_eq_natText] at heq
    apply Option.some.inj
    rw [← Numerals.natOfText_natText number, heq, Numerals.natOfText_natText]
  · exact congrArg decimal

theorem nameByte_ne {byte : UInt8} (hbyte : NameByte byte) :
    byte ≠ 40 ∧ byte ≠ 44 ∧ byte ≠ 61 := by
  refine ⟨?_, ?_, ?_⟩ <;> rintro rfl <;> revert hbyte <;> decide

theorem keyText_selectText :
    keyText (selectText dbConfig userID) = decimal userID.toNat := by
  have hdigits : ∀ byte ∈ (decimal userID.toNat).reverse,
      decide (byte ≠ 61) = true := fun byte hbyte =>
    decide_eq_true (nameByte_ne (decimal_digit (List.mem_reverse.mp hbyte))).2.2
  have hfirst : (selectText dbConfig userID).head? = some 115 := rfl
  have hwhere : ascii " where userid=" = ascii " where userid" ++ [61] := by
    decide
  have hreverse : (selectText dbConfig userID).reverse =
      (decimal userID.toNat).reverse ++
        61 :: (ascii "select passwd from " ++ tableText dbConfig userID ++
          ascii " where userid").reverse := by
    simp [selectText, hwhere]
  unfold keyText
  rw [if_pos hfirst, hreverse, List.takeWhile_append_of_pos hdigits]
  simp

theorem ne_of_all {text : Text} {separator : UInt8}
    (hall : text.all (fun byte => byte ≠ separator) = true) :
    ∀ byte ∈ text, byte ≠ separator := by
  simpa only [List.all_eq_true, decide_eq_true_eq] using hall

theorem tableText_separator :
    ∀ byte ∈ tableText dbConfig userID, byte ≠ 40 := by
  have hdot : ∀ byte ∈ ascii ".", byte ≠ 40 := ne_of_all (by decide)
  have hunder : ∀ byte ∈ ascii "_", byte ≠ 40 := ne_of_all (by decide)
  intro byte hbyte
  simp only [tableText, List.mem_append, or_assoc] at hbyte
  obtain hdb | hbyte | htable | hbyte | hindex := hbyte
  · exact (nameByte_ne (Name.valid _ byte hdb)).1
  · exact hdot byte hbyte
  · exact (nameByte_ne (Name.valid _ byte htable)).1
  · exact hunder byte hbyte
  · exact (nameByte_ne (decimal_digit hindex)).1

theorem insertFront_separator :
    ∀ byte ∈ ascii "insert into " ++ tableText dbConfig userID ++ ascii " ",
      byte ≠ 40 := by
  have hinsert : ∀ byte ∈ ascii "insert into ", byte ≠ 40 :=
    ne_of_all (by decide)
  have hblank : ∀ byte ∈ ascii " ", byte ≠ 40 := ne_of_all (by decide)
  intro byte hbyte
  simp only [List.mem_append, or_assoc] at hbyte
  obtain hbyte | hbyte | hbyte := hbyte
  · exact hinsert byte hbyte
  · exact tableText_separator byte hbyte
  · exact hblank byte hbyte

/-- An insert statement, cut at the two parentheses. -/
theorem insertText_eq :
    insertText dbConfig userID body =
      (ascii "insert into " ++ tableText dbConfig userID ++ ascii " ") ++
        40 :: (ascii "userid, passwd) values " ++
          40 :: (decimal userID.toNat ++
            44 :: 32 :: quote :: (body ++ quote :: ascii ")"))) := by
  have hvalues : ascii " (userid, passwd) values (" =
      ascii " " ++ 40 :: (ascii "userid, passwd) values " ++ [40]) := by
    decide
  have hcomma : ascii ", " = [44, 32] := by decide
  simp [insertText, insertHead, hvalues, hcomma]

theorem head?_insertText :
    (insertText dbConfig userID body).head? ≠ some 115 :=
  show some (105 : UInt8) ≠ some 115 by decide

theorem keyText_insertText :
    keyText (insertText dbConfig userID body) = decimal userID.toNat := by
  have hfront : ∀ byte ∈ ascii "insert into " ++ tableText dbConfig userID ++
      ascii " ", decide (byte ≠ 40) = true := fun byte hbyte =>
    decide_eq_true (insertFront_separator byte hbyte)
  have hnames : ∀ byte ∈ ascii "userid, passwd) values ",
      decide (byte ≠ 40) = true := fun byte hbyte =>
    decide_eq_true (ne_of_all (by decide) byte hbyte)
  have hdigits : ∀ byte ∈ decimal userID.toNat,
      decide (byte ≠ 44) = true := fun byte hbyte =>
    decide_eq_true (nameByte_ne (decimal_digit hbyte)).2.1
  unfold keyText
  rw [if_neg head?_insertText, insertText_eq]
  simp only [List.dropWhile_append_of_pos hfront,
    List.dropWhile_append_of_pos hnames, List.takeWhile_append_of_pos hdigits,
    List.dropWhile_cons, List.takeWhile_cons, List.drop_succ_cons,
    List.drop_zero, ne_eq, not_true_eq_false, decide_false, Bool.false_eq_true,
    if_false, List.append_nil]

theorem keyedTables_insert (value : Text) (state : keyedTables.State)
    (hliteral : literals id (insertText dbConfig userID body) = some [value]) :
    keyedTables.query (getUserDBIndex userID) (insertText dbConfig userID body)
        state =
      match keyedTables.passwd userID state with
      | none =>
          (.rows [],
            Function.update state (decimal userID.toNat) (some value))
      | some _ => (.failed, state) := by
  simp only [keyedTables, if_neg head?_insertText, hliteral,
    keyText_insertText]
  cases state (decimal userID.toNat) with
  | none => rfl
  | some text => rfl

theorem keyedTables_keyed (dbConfig : ℕ → DBConfig) :
    keyedTables.Keyed dbConfig id where
  documented := fun userID =>
    { insert := by
        intro body value state hliteral hnew
        change keyedTables.passwd userID state = none at hnew
        have hquery := keyedTables_insert value state hliteral
        rw [hnew] at hquery
        exact ⟨_, hquery, Function.update_self _ _ _⟩
      select := by
        intro state
        have hselect : (selectText dbConfig userID).head? = some 115 := rfl
        simp only [keyedTables, if_pos hselect, keyText_selectText] }
  others := by
    intro userID other body value state hliteral hother
    have hkey : decimal other.toNat ≠ decimal userID.toNat := fun heq =>
      hother (UInt64.toNat_inj.mp (decimal_inj.mp heq))
    rw [keyedTables_insert value state hliteral]
    cases keyedTables.passwd userID state with
    | none => exact Function.update_of_ne hkey _ _
    | some text => rfl
  duplicate := by
    intro userID body value state hliteral hold
    rw [keyedTables_insert value state hliteral]
    obtain ⟨text, htext⟩ := Option.ne_none_iff_exists'.mp hold
    rw [htext]

end Database

/-- Two users register, and the first one logs in while the database misses
the request of the other. -/
def twoUsers : Accounts keyedTables :=
  (replay (step userDB keyedTables (fun _ => 0) 1)
      (Orderly userDB keyedTables (fun _ => 0) 1)
      (start keyedTables 1 3 10 fun _ => none)
      [.register 1700000000 (ascii "first") true,
        .register 1700000001 (ascii "second") true,
        .login (.acceptConn true), .login (.acceptConn true),
        .login (.loginReq 501 ⟨1700000000, "first", 0⟩ true),
        .login (.loginReq 502 ⟨1700000001, "second", 0⟩ true),
        .loginCheck 1 false true, .loginCheck 0 true true,
        .login (.loginRsp 1)]).getD
    (start keyedTables 1 3 10 fun _ => none)

theorem twoUsers_reaches :
    Reaches (step userDB keyedTables (fun _ => 0) 1)
      (Orderly userDB keyedTables (fun _ => 0) 1)
      (start keyedTables 1 3 10 fun _ => none) twoUsers :=
  reaches_getD (by decide +kernel)

theorem sessions_have_passwords_two :
    twoUsers.logins.conn.posConnMap 501 = some ⟨.connAuth, 1700000000⟩ ∧
      ∃ receipt ∈ twoUsers.logins.received, ∃ text,
        receipt.connection = twoUsers.logins.connections 501 ∧
        receipt.req.userid = 1700000000 ∧
        twoUsers.registered 1700000000 = some text ∧
        receipt.req.passwd = passwdString text := by
  have hconn : twoUsers.logins.conn.posConnMap 501 =
      some ⟨.connAuth, 1700000000⟩ := by decide +kernel
  exact ⟨hconn, (sessions_have_passwords (keyedTables_keyed userDB)
    (fun _ => 0) 1 twoUsers_reaches).1 501 _ hconn rfl (by decide)⟩

end Accounts

end MessageBus.Auth
