import MessageBus.UserShmInitModel

/-!
# The user map is cleared once

The start of the processes goes through phases: nobody has found the magic
missing, one process writes it, the same process is about to clear the map, the
map is in use.  `LOCK_ALL` is taken on a lock file that is opened at the end of
`Init` only, so it keeps nobody out, and the phases are kept only by runs in
which no process looks at the segment at the wrong time.
-/

namespace MessageBus.UserShmInit

open HashList

variable {Proc Data : Type}

/-! ## What a process is doing -/

/-- Before its test of the magic. -/
def Point.early : Point Data → Bool
  | .outside | .locked => true
  | _ => false

/-- Between `memcmp` and the end of `memcpy`. -/
def Point.writing : Point Data → Bool
  | .magicMissing | .headZeroed => true
  | _ => false

/-- The magic is written and `Clear` is still to come. -/
def Point.clearing : Point Data → Bool
  | .tested clearFlag | .opened clearFlag => clearFlag
  | _ => false

/-- Past the test of the magic, with nothing left to clear. -/
def Point.attaching : Point Data → Bool
  | .tested clearFlag | .opened clearFlag => !clearFlag
  | .refused (.initMap _) => true
  | _ => false

def Point.inCall : Point Data → Bool
  | .calling .. => true
  | _ => false

/-- `Init` has returned 0. -/
def Point.returned : Point Data → Bool
  | .ready | .calling .. => true
  | _ => false

/-- Between the first and the last write of a call. -/
def Point.midway : Point Data → Bool
  | .calling begun pending => begun && !pending.isEmpty
  | _ => false

/-- `Verify` has failed, or a loop over the map does not end. -/
def Point.misled : Point Data → Bool
  | .refused (.verify _) | .hanging => true
  | _ => false

/-- `m_UserInfoMap.Init` has succeeded. -/
def Point.hasMap : Point Data → Bool
  | .opened _ | .verified | .ready | .calling .. => true
  | _ => false

/-- `Verify` has passed. -/
def Point.served : Point Data → Bool
  | .verified | .ready | .calling .. => true
  | _ => false

def Point.pending : Point Data → List (Write Data)
  | .calling _ pending => pending
  | _ => []

/-- The writes that the call in progress has still to do. -/
def System.pending (state : System Proc Data) : List (Write Data) :=
  state.holder.elim [] fun p => (state.point p).pending

/-! ## The property and the condition -/

/-- The map that the calls made so far leave, with their answers. -/
def System.served (conf : Conf) (state : System Proc Data) :
    List (Answer Data) × BoundedMap UInt64 Data :=
  mapRun (.empty UInt64 Data (conf.maxUserNodeNum.toNat - 1))
    (state.history.map Prod.fst)

/-- The map has been cleared before `Init` has returned 0 anywhere, and not
again: all that the processes have put into it since is there. -/
structure ClearedOnce (conf : Conf) (state : System Proc Data) : Prop where
  once : state.clears ≤ 1
  before_return : ∀ p, (state.point p).returned → state.clears = 1
  kept : state.clears = 1 →
    state.history.map Prod.snd = (state.served conf).1 ∧
      Valid (state.userInfoMap.perform state.pending)
        conf.maxUserNodeNum.toNat conf.maxUserNodeNum.toNat
        (state.served conf).2
  not_misled : ∀ p, (state.point p).misled = false

/-- The magic is not tested while another process writes it, and the map is not
verified while another process has still to clear it or is in the middle of
changing it. -/
def Undisturbed (state : System Proc Data) : Action Proc Data → Prop
  | .testMagic p => ∀ q, q ≠ p → (state.point q).writing = false
  | .verify p => ∀ q, q ≠ p →
      (state.point q).clearing = false ∧ (state.point q).midway = false
  | _ => True

/-! ## The phases -/

inductive Phase (Proc : Type) where
  | fresh
  | writing (p : Proc)
  | clearing (p : Proc)
  | inUse
  /-- the configuration has too few nodes for a map -/
  | hopeless

/-- Where a process can be in a phase. -/
def Phase.Fits : Phase Proc → Proc → Point Data → Prop
  | .fresh, _, point => point.early
  | .writing p, q, point => (q = p ∧ point.writing) ∨ (q ≠ p ∧ point.early)
  | .clearing p, q, point =>
      (q = p ∧ point.clearing) ∨ (q ≠ p ∧ (point.early ∨ point.attaching))
  | .inUse, _, point =>
      point.early ∨ point.attaching ∨ point = .verified ∨ point.returned ∨
        point = .refused .initLock
  | .hopeless, _, point => point.early ∨ point.attaching

/-- The head says what `m_UserInfoMap.Init` writes there. -/
structure Sized (conf : Conf) (segment : Segment Data) : Prop where
  size : segment.head.iSize = conf.userInfoMemSize
  index : segment.head.iIndexNodeNum = conf.maxUserNodeNum
  total : segment.head.iTotalDataNodeNum = conf.maxUserNodeNum

/-- What the segment is in a phase. -/
def Phase.Facts (conf : Conf) (state : System Proc Data) : Phase Proc → Prop
  | .fresh => state.clears = 0 ∧ state.history = [] ∧ state.magic ≠ conf.magic
  | .writing _ => state.clears = 0 ∧ state.history = []
  | .clearing _ =>
      state.clears = 0 ∧ state.history = [] ∧ state.magic = conf.magic
  | .inUse => state.clears = 1 ∧ state.magic = conf.magic ∧
      2 ≤ conf.maxUserNodeNum ∧ Sized conf state.userInfoMap ∧
      (state.history.map Prod.snd = (state.served conf).1 ∧
        Valid (state.userInfoMap.perform state.pending)
          conf.maxUserNodeNum.toNat conf.maxUserNodeNum.toNat
          (state.served conf).2) ∧
      ((∀ q, (state.point q).midway = false) →
        ∃ users, Valid state.userInfoMap conf.maxUserNodeNum.toNat
          conf.maxUserNodeNum.toNat users)
  | .hopeless => state.clears = 0 ∧ state.magic = conf.magic ∧
      conf.maxUserNodeNum < 2

structure Orderly (conf : Conf) (state : System Proc Data)
    (phase : Phase Proc) : Prop where
  fits : ∀ q, phase.Fits q (state.point q)
  facts : phase.Facts conf state
  hasMap : ∀ q, (state.point q).hasMap →
    2 ≤ conf.maxUserNodeNum ∧ Sized conf state.userInfoMap
  holder : ∀ q, state.holder = some q ↔ (state.point q).inCall
  lockFile : ∀ q, state.lockFile q = (state.point q).returned

/-! ## Steps that leave the lock file alone -/

section Frame

variable {conf : Conf} {state after : System Proc Data} {phase : Phase Proc}
  {p : Proc}

theorem inCall_eq_false {point : Point Data} (hreturned : point.returned = false) :
    point.inCall = false := by
  cases point <;> simp_all [Point.inCall, Point.returned]

theorem midway_eq_false {point : Point Data} (hreturned : point.returned = false) :
    point.midway = false := by
  cases point <;> simp_all [Point.midway, Point.returned]

theorem Orderly.holder_ne
    (h : Orderly conf state phase)
    (hbefore : (state.point p).inCall = false) : state.holder ≠ some p := by
  intro hholder
  have hcall := (h.holder p).mp hholder
  rw [hbefore] at hcall
  exact Bool.false_ne_true hcall

/-- The process that writes the magic is the one the phase is named after. -/
theorem Orderly.eq_writing
    (h : Orderly conf state phase) (hwriting : (state.point p).writing) :
    phase = .writing p := by
  have hfits := h.fits p
  cases hpoint : state.point p <;>
    simp only [hpoint, Point.writing, Bool.false_eq_true] at hwriting <;>
    cases phase <;>
    simp_all [Phase.Fits, Point.early, Point.writing, Point.clearing,
      Point.attaching, Point.returned]

theorem Orderly.eq_clearing
    (h : Orderly conf state phase) (hclearing : (state.point p).clearing) :
    phase = .clearing p := by
  have hfits := h.fits p
  cases hpoint : state.point p <;>
    simp only [hpoint, Point.clearing, Bool.false_eq_true] at hclearing <;>
    cases phase <;>
    simp_all [Phase.Fits, Point.early, Point.writing, Point.clearing,
      Point.attaching, Point.returned]

theorem Orderly.eq_inUse
    (h : Orderly conf state phase) (hserved : (state.point p).served) :
    phase = .inUse := by
  have hfits := h.fits p
  cases hpoint : state.point p <;>
    simp only [hpoint, Point.served, Bool.false_eq_true] at hserved <;>
    cases phase <;>
    simp_all [Phase.Fits, Point.early, Point.writing, Point.clearing,
      Point.attaching, Point.returned]

theorem Orderly.holder_eq_none
    (h : Orderly conf state (.clearing p)) : state.holder = none := by
  cases hholder : state.holder with
  | none => rfl
  | some q =>
      have hcall := (h.holder q).mp hholder
      have hfits := h.fits q
      cases hpoint : state.point q <;>
        simp_all [Phase.Fits, Point.early, Point.clearing, Point.attaching,
          Point.inCall]

theorem facts_congr
    (hfacts : phase.Facts conf state)
    (hclears : after.clears = state.clears)
    (hhistory : after.history = state.history)
    (hmagic : after.magic = state.magic)
    (hmap : after.userInfoMap = state.userInfoMap)
    (hpending : after.pending = state.pending)
    (hmidway : ∀ q, (state.point q).midway = (after.point q).midway) :
    phase.Facts conf after := by
  have hserved : after.served conf = state.served conf := by
    rw [System.served, System.served, hhistory]
  cases phase <;>
    simp only [Phase.Facts, hclears, hhistory, hmagic, hmap, hpending,
      hserved, ← hmidway] at hfacts ⊢ <;>
    exact hfacts

end Frame

section Step

variable [DecidableEq Proc] {conf : Conf} {state after : System Proc Data}
  {phase phase' : Phase Proc} {p : Proc} {point : Point Data} {ret : ℤ}

theorem lock_of_closed (hclosed : state.lockFile p = false) :
    state.lock p = some (-1, state) := by
  simp [System.lock, hclosed]

theorem unLock_of_closed (hclosed : state.lockFile p = false) :
    state.unLock p = state := by
  simp [System.unLock, hclosed]

theorem unLock_of_not_holder (hne : state.holder ≠ some p) :
    state.unLock p = state := by
  simp [System.unLock, hne]

/-- A step of a process that is in no call does not touch the writes of the call
in progress. -/
theorem pending_eq
    (hne : state.holder ≠ some p)
    (hpoint : after.point = Function.update state.point p point)
    (hholder : after.holder = state.holder) :
    after.pending = state.pending := by
  unfold System.pending
  rw [hholder]
  cases hof : state.holder with
  | none => rfl
  | some q =>
      have hqp : q ≠ p := by
        rintro rfl
        exact hne hof
      simp only [Option.elim_some, hpoint, Function.update_of_ne hqp]

theorem Orderly.quiet
    (h : Orderly conf state phase)
    (hbefore : (state.point p).returned = false)
    (hafter : point.returned = false)
    (hpoint : after.point = Function.update state.point p point)
    (hholder : after.holder = state.holder)
    (hlock : after.lockFile = state.lockFile)
    (hothers : ∀ q, q ≠ p → phase'.Fits q (state.point q))
    (hself : phase'.Fits p point)
    (hfacts : phase'.Facts conf after)
    (hsized : Sized conf state.userInfoMap → Sized conf after.userInfoMap)
    (hmap : point.hasMap →
      2 ≤ conf.maxUserNodeNum ∧ Sized conf after.userInfoMap) :
    Orderly conf after phase' := by
  constructor
  · intro q
    rw [hpoint]
    by_cases hq : q = p
    · subst q
      rwa [Function.update_self]
    · rw [Function.update_of_ne hq]
      exact hothers q hq
  · exact hfacts
  · intro q hq
    rw [hpoint] at hq
    by_cases hqp : q = p
    · subst q
      rw [Function.update_self] at hq
      exact hmap hq
    · rw [Function.update_of_ne hqp] at hq
      obtain ⟨htwo, hbeforeSized⟩ := h.hasMap q hq
      exact ⟨htwo, hsized hbeforeSized⟩
  · intro q
    rw [hholder, hpoint, h.holder q]
    by_cases hqp : q = p
    · subst q
      rw [Function.update_self, inCall_eq_false hbefore,
        inCall_eq_false hafter]
    · rw [Function.update_of_ne hqp]
  · intro q
    rw [hlock, h.lockFile q, hpoint]
    by_cases hqp : q = p
    · subst q
      rw [Function.update_self, hbefore, hafter]
    · rw [Function.update_of_ne hqp]

theorem Orderly.facts_moveTo
    (h : Orderly conf state phase)
    (hbefore : (state.point p).returned = false)
    (hafter : point.returned = false) :
    phase.Facts conf (state.moveTo p point) := by
  refine facts_congr h.facts rfl rfl rfl rfl ?_ ?_
  · exact pending_eq (h.holder_ne (inCall_eq_false hbefore)) rfl rfl
  · intro q
    by_cases hqp : q = p
    · subst q
      rw [midway_eq_false hbefore]
      simp only [System.moveTo, Function.update_self, midway_eq_false hafter]
    · simp only [System.moveTo, Function.update_of_ne hqp]

theorem Orderly.moveTo
    (h : Orderly conf state phase)
    (hbefore : (state.point p).returned = false)
    (hafter : point.returned = false) (hself : phase.Fits p point)
    (hmap : point.hasMap → (state.point p).hasMap) :
    Orderly conf (state.moveTo p point) phase :=
  h.quiet hbefore hafter rfl rfl rfl (fun q _ => h.fits q) hself
    (h.facts_moveTo hbefore hafter) id fun hpoint => h.hasMap p (hmap hpoint)

/-! ## The magic -/

theorem Orderly.lockAll
    (h : Orderly conf state phase) (hpoint : state.point p = .outside)
    (hlock : state.lock p = some (ret, after)) :
    Orderly conf (after.moveTo p .locked) phase := by
  have hreturned : (state.point p).returned = false := by rw [hpoint]; rfl
  -- the lock file is not open yet: `Lock` fails, and nobody is kept out
  rw [lock_of_closed ((h.lockFile p).trans hreturned)] at hlock
  cases hlock
  apply h.moveTo hreturned rfl
  · have hfits := h.fits p
    rw [hpoint] at hfits
    cases phase with
    | inUse => exact Or.inl rfl
    | _ => exact hfits
  · exact fun hmap => absurd hmap Bool.false_ne_true

theorem Orderly.not_writing
    (h : Orderly conf state phase) (hearly : (state.point p).early)
    (hothers : ∀ q, q ≠ p → (state.point q).writing = false) (q : Proc) :
    phase ≠ .writing q := by
  rintro rfl
  have hwriting : (state.point q).writing := by
    rcases h.fits q with ⟨-, hwriting⟩ | ⟨hne, -⟩
    · exact hwriting
    · exact absurd rfl hne
  by_cases hqp : q = p
  · subst q
    cases hpoint : state.point p <;>
      simp_all [Point.early, Point.writing]
  · rw [hothers q hqp] at hwriting
    exact Bool.false_ne_true hwriting

theorem Orderly.testMagic_missing
    (h : Orderly conf state phase) (hpoint : state.point p = .locked)
    (hothers : ∀ q, q ≠ p → (state.point q).writing = false)
    (hmagic : state.magic ≠ conf.magic) :
    Orderly conf (state.moveTo p .magicMissing) (.writing p) := by
  have hreturned : (state.point p).returned = false := by rw [hpoint]; rfl
  have hearly : (state.point p).early := by rw [hpoint]; rfl
  cases phase with
  | fresh =>
      have hfacts := h.facts
      refine h.quiet hreturned rfl rfl rfl rfl ?_ ?_ ?_ ?_ ?_
      · intro q hq
        exact Or.inr ⟨hq, h.fits q⟩
      · exact Or.inl ⟨rfl, rfl⟩
      · exact ⟨hfacts.1, hfacts.2.1⟩
      · exact id
      · exact fun hmap => absurd hmap Bool.false_ne_true
  | writing q => exact absurd rfl (h.not_writing hearly hothers q)
  | clearing q => exact absurd h.facts.2.2 hmagic
  | inUse => exact absurd h.facts.2.1 hmagic
  | hopeless => exact absurd h.facts.2.1 hmagic

theorem Orderly.testMagic_found
    (h : Orderly conf state phase) (hpoint : state.point p = .locked)
    (hothers : ∀ q, q ≠ p → (state.point q).writing = false)
    (hmagic : state.magic = conf.magic) :
    Orderly conf (state.moveTo p (.tested false)) phase := by
  have hreturned : (state.point p).returned = false := by rw [hpoint]; rfl
  have hearly : (state.point p).early := by rw [hpoint]; rfl
  apply h.moveTo hreturned rfl
  · have hfits := h.fits p
    rw [hpoint] at hfits
    cases phase with
    | fresh => exact absurd hmagic h.facts.2.2
    | writing q => exact absurd rfl (h.not_writing hearly hothers q)
    | clearing q =>
        rcases hfits with ⟨-, hclearing⟩ | ⟨hne, -⟩
        · exact absurd hclearing Bool.false_ne_true
        · exact Or.inr ⟨hne, Or.inr rfl⟩
    | inUse => exact Or.inr (Or.inl rfl)
    | hopeless => exact Or.inr rfl
  · exact fun hmap => absurd hmap Bool.false_ne_true

theorem Orderly.zeroHead
    (h : Orderly conf state phase) (hpoint : state.point p = .magicMissing)
    (magic : List UInt8) :
    Orderly conf ({ state with magic := magic }.moveTo p .headZeroed)
      phase := by
  have hreturned : (state.point p).returned = false := by rw [hpoint]; rfl
  have hphase : phase = .writing p := h.eq_writing (by rw [hpoint]; rfl)
  subst phase
  refine h.quiet hreturned rfl rfl rfl rfl ?_ ?_ ?_ ?_ ?_
  · exact fun q _ => h.fits q
  · exact Or.inl ⟨rfl, rfl⟩
  · exact h.facts
  · exact id
  · exact fun hmap => absurd hmap Bool.false_ne_true

theorem Orderly.writeMagic
    (h : Orderly conf state phase) (hpoint : state.point p = .headZeroed) :
    Orderly conf ({ state with magic := conf.magic }.moveTo p (.tested true))
      (.clearing p) := by
  have hreturned : (state.point p).returned = false := by rw [hpoint]; rfl
  have hphase : phase = .writing p := h.eq_writing (by rw [hpoint]; rfl)
  subst phase
  refine h.quiet hreturned rfl rfl rfl rfl ?_ ?_ ?_ ?_ ?_
  · intro q hq
    rcases h.fits q with ⟨rfl, -⟩ | ⟨-, hearly⟩
    · exact absurd rfl hq
    · exact Or.inr ⟨hq, Or.inl hearly⟩
  · exact Or.inl ⟨rfl, rfl⟩
  · exact ⟨h.facts.1, h.facts.2, rfl⟩
  · exact id
  · exact fun hmap => absurd hmap Bool.false_ne_true

/-! ## The map -/

theorem initMap_of_room (htwo : 2 ≤ conf.maxUserNodeNum)
    (segment : Segment Data) :
    conf.initMap segment =
      (success, { segment with
        head := { segment.head with
          iSize := conf.userInfoMemSize
          iIndexNodeNum := conf.maxUserNodeNum
          iTotalDataNodeNum := conf.maxUserNodeNum } }) :=
  init_of_room le_rfl (le_trans (by decide) htwo) htwo

theorem initMap_of_sized (htwo : 2 ≤ conf.maxUserNodeNum)
    {segment : Segment Data} (hsized : Sized conf segment) :
    (conf.initMap segment).2 = segment := by
  rw [initMap_of_room htwo]
  obtain ⟨hsize, hindex, htotal⟩ := hsized
  cases segment with
  | mk head iHashVal iDataNodeNum ipDataNodeList keyVal ipNextDataNode data =>
      cases head
      dsimp only at hsize hindex htotal
      subst hsize hindex
      rw [htotal]

theorem initMap_of_few (hfew : conf.maxUserNodeNum < 2)
    (segment : Segment Data) :
    (conf.initMap segment).1 ≠ 0 ∧ (conf.initMap segment).2 = segment := by
  have hmem : ¬ conf.userInfoMemSize < toInt32 (headSize +
      conf.maxUserNodeNum * indexNodeSize +
      conf.maxUserNodeNum * conf.dataNodeSize) := lt_irrefl _
  simp only [Conf.initMap, Segment.init, if_neg hmem, if_pos hfew]
  split_ifs
  · exact ⟨by simp [eHashListIndexNum], rfl⟩
  · exact ⟨by simp [eHashListDataNum], rfl⟩

theorem Orderly.initMap_refused
    (h : Orderly conf state phase) {clearFlag : Bool}
    (hpoint : state.point p = .tested clearFlag)
    (hfew : conf.maxUserNodeNum < 2) :
    ∃ phase', Orderly conf
      (state.moveTo p (.refused (.initMap ret))) phase' := by
  have hreturned : (state.point p).returned = false := by rw [hpoint]; rfl
  cases clearFlag with
  | true =>
      -- nobody is left to clear the map, and nobody can open it
      have hphase : phase = .clearing p := h.eq_clearing (by rw [hpoint]; rfl)
      subst phase
      refine ⟨.hopeless, h.quiet hreturned rfl rfl rfl rfl ?_ ?_ ?_ ?_ ?_⟩
      · intro q hq
        rcases h.fits q with ⟨rfl, -⟩ | ⟨-, hfits⟩
        · exact absurd rfl hq
        · exact hfits
      · exact Or.inr rfl
      · exact ⟨h.facts.1, h.facts.2.2, hfew⟩
      · exact id
      · exact fun hmap => absurd hmap Bool.false_ne_true
  | false =>
      refine ⟨phase, h.moveTo hreturned rfl ?_ ?_⟩
      · have hfits := h.fits p
        rw [hpoint] at hfits
        cases phase with
        | inUse => exact Or.inr (Or.inl rfl)
        | _ => exact hfits
      · exact fun hmap => absurd hmap Bool.false_ne_true

theorem Orderly.initMap_opened
    (h : Orderly conf state phase) {clearFlag : Bool}
    (hpoint : state.point p = .tested clearFlag)
    (htwo : 2 ≤ conf.maxUserNodeNum) :
    Orderly conf ({ state with
      userInfoMap := (conf.initMap state.userInfoMap).2 }.moveTo p
        (.opened clearFlag)) phase := by
  have hreturned : (state.point p).returned = false := by rw [hpoint]; rfl
  have hsized : Sized conf (conf.initMap state.userInfoMap).2 := by
    rw [initMap_of_room htwo]
    exact ⟨rfl, rfl, rfl⟩
  refine h.quiet hreturned rfl rfl rfl rfl ?_ ?_ ?_ ?_ ?_
  · exact fun q _ => h.fits q
  · have hfits := h.fits p
    rw [hpoint] at hfits
    cases phase with
    | inUse => simpa [Phase.Fits, Point.early, Point.attaching,
        Point.returned] using hfits
    | _ => exact hfits
  · cases phase with
    | inUse =>
        -- the head says already what is written there
        rw [initMap_of_sized htwo h.facts.2.2.2.1]
        exact h.facts_moveTo hreturned rfl
    | _ => exact h.facts
  · exact fun _ => hsized
  · exact fun _ => ⟨htwo, hsized⟩

theorem Orderly.clear [Inhabited Data]
    (h : Orderly conf state phase) (hpoint : state.point p = .opened true) :
    Orderly conf ({ state with
      userInfoMap := state.userInfoMap.clear
      clears := state.clears + 1 }.moveTo p (.opened false)) .inUse := by
  have hreturned : (state.point p).returned = false := by rw [hpoint]; rfl
  have hphase : phase = .clearing p := h.eq_clearing (by rw [hpoint]; rfl)
  subst phase
  obtain ⟨htwo, hsized⟩ := h.hasMap p (by rw [hpoint]; rfl)
  have hcleared : Sized conf state.userInfoMap.clear :=
    ⟨hsized.size, hsized.index, hsized.total⟩
  have hcast : ((conf.maxUserNodeNum.toNat : ℕ) : ℤ) = conf.maxUserNodeNum :=
    Int.toNat_of_nonneg (by omega)
  have hvalid := clear_valid (hsized.index.trans hcast.symm)
    (hsized.total.trans hcast.symm) (by omega) (by omega)
  refine h.quiet hreturned rfl rfl rfl rfl ?_ ?_ ?_ ?_ ?_
  · intro q hq
    rcases h.fits q with ⟨rfl, -⟩ | ⟨-, hearly | hattaching⟩
    · exact absurd rfl hq
    · exact Or.inl hearly
    · exact Or.inr (Or.inl hattaching)
  · exact Or.inr (Or.inl rfl)
  · have hpending : ({ state with
        userInfoMap := state.userInfoMap.clear
        clears := state.clears + 1 }.moveTo p
          (.opened false)).pending = [] := by
      simp [System.pending, System.moveTo, h.holder_eq_none]
    obtain ⟨hclears, hhistory, hmagic⟩ := h.facts
    refine ⟨congrArg (· + 1) hclears, hmagic, htwo, hcleared, ?_,
      fun _ => ⟨_, hvalid⟩⟩
    rw [hpending]
    simp only [System.served, System.moveTo, hhistory]
    exact ⟨rfl, hvalid⟩
  · exact fun _ => hcleared
  · exact fun _ => ⟨htwo, hcleared⟩

theorem Orderly.verify
    (h : Orderly conf state phase) (hpoint : state.point p = .opened false)
    (hothers : ∀ q, q ≠ p →
      (state.point q).clearing = false ∧ (state.point q).midway = false) :
    state.userInfoMap.verify conf.fuel = some 0 ∧
      Orderly conf (state.moveTo p .verified) phase := by
  have hreturned : (state.point p).returned = false := by rw [hpoint]; rfl
  obtain ⟨htwo, -⟩ := h.hasMap p (by rw [hpoint]; rfl)
  have hfits := h.fits p
  rw [hpoint] at hfits
  cases phase with
  | fresh => exact absurd hfits Bool.false_ne_true
  | writing q =>
      rcases hfits with ⟨-, hwriting⟩ | ⟨-, hearly⟩
      · exact absurd hwriting Bool.false_ne_true
      · exact absurd hearly Bool.false_ne_true
  | clearing q =>
      rcases hfits with ⟨-, hclearing⟩ | ⟨hne, -⟩
      · exact absurd hclearing Bool.false_ne_true
      · rcases h.fits q with ⟨-, hclearing⟩ | ⟨hself, -⟩
        · rw [(hothers q (Ne.symm hne)).1] at hclearing
          exact absurd hclearing Bool.false_ne_true
        · exact absurd rfl hself
  | inUse =>
      have hmidway : ∀ q, (state.point q).midway = false := by
        intro q
        by_cases hqp : q = p
        · rw [hqp, hpoint]
          rfl
        · exact (hothers q hqp).2
      obtain ⟨users, hvalid⟩ := h.facts.2.2.2.2.2 hmidway
      refine ⟨verify_of_valid hvalid le_rfl, h.moveTo hreturned rfl ?_ ?_⟩
      · exact Or.inr (Or.inr (Or.inl rfl))
      · exact fun _ => by rw [hpoint]; rfl
  | hopeless =>
      have hfew := h.facts.2.2
      omega

theorem Orderly.initLock_refused
    (h : Orderly conf state phase) (hpoint : state.point p = .verified) :
    Orderly conf (state.moveTo p (.refused .initLock)) phase := by
  have hreturned : (state.point p).returned = false := by rw [hpoint]; rfl
  have hphase := h.eq_inUse (by rw [hpoint]; rfl)
  subst phase
  apply h.moveTo hreturned rfl
  · exact Or.inr (Or.inr (Or.inr (Or.inr rfl)))
  · exact fun hmap => absurd hmap Bool.false_ne_true

/-! ## The calls -/

/-- A step of a process in its own call, or of one that enters or leaves one. -/
theorem Orderly.inCalls
    (h : Orderly conf state .inUse)
    (hafter : point.returned)
    (hpoint : after.point = Function.update state.point p point)
    (hholder : ∀ q, q ≠ p → (after.holder = some q ↔ state.holder = some q))
    (hself : after.holder = some p ↔ point.inCall)
    (hlock : after.lockFile = Function.update state.lockFile p true)
    (hfacts : Phase.inUse.Facts conf after) :
    Orderly conf after .inUse := by
  constructor
  · intro q
    rw [hpoint]
    by_cases hq : q = p
    · subst q
      rw [Function.update_self]
      exact Or.inr (Or.inr (Or.inr (Or.inl hafter)))
    · rw [Function.update_of_ne hq]
      exact h.fits q
  · exact hfacts
  · exact fun _ _ => ⟨hfacts.2.2.1, hfacts.2.2.2.1⟩
  · intro q
    rw [hpoint]
    by_cases hq : q = p
    · subst q
      rw [Function.update_self]
      exact hself
    · rw [Function.update_of_ne hq, hholder q hq]
      exact h.holder q
  · intro q
    rw [hpoint, hlock]
    by_cases hq : q = p
    · subst q
      rw [Function.update_self, Function.update_self, hafter]
    · rw [Function.update_of_ne hq, Function.update_of_ne hq]
      exact h.lockFile q

theorem Orderly.initLock_opens
    (h : Orderly conf state phase) (hpoint : state.point p = .verified) :
    Orderly conf ({ state with
      lockFile := Function.update state.lockFile p true }.moveTo p .ready)
      .inUse := by
  have hphase := h.eq_inUse (by rw [hpoint]; rfl)
  subst phase
  have hne : state.holder ≠ some p := h.holder_ne (by rw [hpoint]; rfl)
  refine h.inCalls rfl rfl (fun _ _ => Iff.rfl) ?_ rfl ?_
  · constructor
    · exact fun hholder => absurd hholder hne
    · exact fun hcall => absurd hcall Bool.false_ne_true
  · refine facts_congr h.facts rfl rfl rfl rfl (pending_eq hne rfl rfl) ?_
    intro q
    by_cases hq : q = p
    · subst q
      simp only [System.moveTo, Function.update_self, hpoint, Point.midway]
    · simp only [System.moveTo, Function.update_of_ne hq]

theorem call_eq_perform (segment : Segment Data) (fuel : ℕ)
    (call : Call Data) :
    segment.call fuel call =
      (callWrites segment fuel call).map fun (answer, writes) =>
        (answer, segment.perform writes) := by
  cases call <;>
    simp only [Segment.call, callWrites, Option.map_map] <;> rfl

theorem mapRun_concat (map : BoundedMap UInt64 Data)
    (calls : List (Call Data)) (call : Call Data) :
    mapRun map (calls ++ [call]) =
      ((mapRun map calls).1 ++ [(mapCall (mapRun map calls).2 call).1],
        (mapCall (mapRun map calls).2 call).2) := by
  induction calls generalizing map with
  | nil => rfl
  | cons first calls ih =>
      simp only [List.cons_append, mapRun, ih]

theorem Sized.apply {segment : Segment Data} (hsized : Sized conf segment)
    (write : Write Data) : Sized conf (write.apply segment) := by
  cases write <;> exact ⟨hsized.size, hsized.index, hsized.total⟩

omit [DecidableEq Proc] in
/-- On a map in use a call has an answer, that of the finite map, and leaves the
finite map behind it once its writes are done. -/
theorem Orderly.callWrites_eq
    (h : Orderly conf state .inUse) (hholder : state.holder = none)
    (call : Call Data) :
    ∃ writes, callWrites state.userInfoMap conf.fuel call =
        some ((mapCall (state.served conf).2 call).1, writes) ∧
      Valid (state.userInfoMap.perform writes) conf.maxUserNodeNum.toNat
        conf.maxUserNodeNum.toNat (mapCall (state.served conf).2 call).2 := by
  have hvalid := h.facts.2.2.2.2.1.2
  have hpending : state.pending = [] := by
    rw [System.pending, hholder, Option.elim_none]
  rw [hpending] at hvalid
  have hfuel : conf.maxUserNodeNum.toNat ≤ conf.fuel := le_rfl
  obtain ⟨next, hcall, hnext, -⟩ := call_simulates hvalid hfuel call
  change state.userInfoMap.call conf.fuel call = _ at hcall
  rw [call_eq_perform] at hcall
  obtain ⟨⟨answer, writes⟩, hwrites, heq⟩ := Option.map_eq_some_iff.mp hcall
  cases heq
  exact ⟨writes, hwrites, hnext⟩

/-- The lock file of a process whose `Init` has returned is open, so that it
enters a call only if nobody else is in one. -/
theorem Orderly.lock_eq
    (h : Orderly conf state phase) (hpoint : state.point p = .ready)
    (hlock : state.lock p = some (ret, after)) :
    state.holder = none ∧ after = { state with holder := some p } := by
  have hopen : state.lockFile p = true := by rw [h.lockFile p, hpoint]; rfl
  have hne : state.holder ≠ some p := h.holder_ne (by rw [hpoint]; rfl)
  simp only [System.lock, hopen, if_true] at hlock
  split_ifs at hlock with hheld
  cases hlock
  constructor
  · cases hholder : state.holder with
    | none => rfl
    | some q => exact absurd ⟨by rw [hholder]; rfl, hne⟩ hheld
  · rfl

theorem lockFile_update
    (hopen : state.lockFile p = true) :
    state.lockFile = Function.update state.lockFile p true := by
  rw [← hopen, Function.update_eq_self]

theorem Orderly.beginCall
    (h : Orderly conf state phase) (hpoint : state.point p = .ready)
    (hlock : state.lock p = some (ret, after)) (call : Call Data) :
    ∃ answer writes,
      callWrites after.userInfoMap conf.fuel call = some (answer, writes) ∧
      Orderly conf ({ after with
        history := after.history ++ [(call, answer)] }.moveTo p
          (.calling false writes)) .inUse := by
  have hphase := h.eq_inUse (by rw [hpoint]; rfl)
  subst phase
  obtain ⟨hholder, rfl⟩ := h.lock_eq hpoint hlock
  obtain ⟨writes, hwrites, hvalid⟩ := h.callWrites_eq hholder call
  have hopen : state.lockFile p = true := by rw [h.lockFile p, hpoint]; rfl
  refine ⟨_, writes, hwrites, h.inCalls rfl rfl ?_ ?_
    (lockFile_update hopen) ?_⟩
  · intro q hq
    rw [hholder]
    constructor
    · intro hself
      exact absurd (Option.some.inj hself).symm hq
    · intro hnone
      exact absurd hnone (by simp)
  · exact ⟨fun _ => rfl, fun _ => rfl⟩
  · obtain ⟨hclears, hmagic, htwo, hsized, ⟨hanswers, hbefore⟩, -⟩ := h.facts
    refine ⟨hclears, hmagic, htwo, hsized, ?_, ?_⟩
    · simp only [System.served, System.moveTo, List.map_append, List.map_cons,
        List.map_nil, mapRun_concat, System.pending, Option.elim_some,
        Function.update_self, Point.pending]
      exact ⟨congrArg (· ++ _) hanswers, hvalid⟩
    · intro _
      -- nothing is written yet
      rw [System.pending, hholder, Option.elim_none] at hbefore
      exact ⟨_, hbefore⟩

theorem Orderly.write
    (h : Orderly conf state phase) {begun : Bool} {write : Write Data}
    {pending : List (Write Data)}
    (hpoint : state.point p = .calling begun (write :: pending)) :
    Orderly conf ({ state with
      userInfoMap := write.apply state.userInfoMap }.moveTo p
        (.calling true pending)) .inUse := by
  have hphase := h.eq_inUse (by rw [hpoint]; rfl)
  subst phase
  have hopen : state.lockFile p = true := by rw [h.lockFile p, hpoint]; rfl
  have hholder : state.holder = some p := (h.holder p).mpr (by rw [hpoint]; rfl)
  obtain ⟨hclears, hmagic, htwo, hsized, ⟨hanswers, hbefore⟩, -⟩ := h.facts
  have hvalid : Valid ((write.apply state.userInfoMap).perform pending)
      conf.maxUserNodeNum.toNat conf.maxUserNodeNum.toNat
      (state.served conf).2 := by
    rw [System.pending, hholder, Option.elim_some, hpoint] at hbefore
    exact hbefore
  refine h.inCalls rfl rfl (fun _ _ => Iff.rfl) ?_ (lockFile_update hopen) ?_
  · exact ⟨fun _ => rfl, fun _ => hholder⟩
  · refine ⟨hclears, hmagic, htwo, hsized.apply write, ⟨hanswers, ?_⟩, ?_⟩
    · simp only [System.pending, System.moveTo, hholder, Option.elim_some,
        Function.update_self, Point.pending]
      exact hvalid
    · intro hmidway
      have hlast := hmidway p
      simp only [System.moveTo, Function.update_self, Point.midway,
        Bool.true_and, Bool.not_eq_false', List.isEmpty_iff] at hlast
      subst pending
      exact ⟨_, hvalid⟩

theorem Orderly.endCall
    (h : Orderly conf state phase) {begun : Bool}
    (hpoint : state.point p = .calling begun []) :
    Orderly conf ((state.unLock p).moveTo p .ready) .inUse := by
  have hphase := h.eq_inUse (by rw [hpoint]; rfl)
  subst phase
  have hopen : state.lockFile p = true := by rw [h.lockFile p, hpoint]; rfl
  have hholder : state.holder = some p := (h.holder p).mpr (by rw [hpoint]; rfl)
  have hunlock : state.unLock p = { state with holder := none } := by
    simp [System.unLock, hopen, hholder]
  obtain ⟨hclears, hmagic, htwo, hsized, ⟨hanswers, hbefore⟩, -⟩ := h.facts
  have hvalid : Valid state.userInfoMap conf.maxUserNodeNum.toNat
      conf.maxUserNodeNum.toNat (state.served conf).2 := by
    rw [System.pending, hholder, Option.elim_some, hpoint] at hbefore
    exact hbefore
  rw [hunlock]
  refine h.inCalls rfl rfl ?_ ?_ (lockFile_update hopen) ?_
  · intro q hq
    rw [hholder]
    constructor
    · intro hnone
      exact absurd hnone (by simp [System.moveTo])
    · intro hself
      exact absurd (Option.some.inj hself).symm hq
  · constructor
    · intro hnone
      exact absurd hnone (by simp [System.moveTo])
    · exact fun hcall => absurd hcall Bool.false_ne_true
  · exact ⟨hclears, hmagic, htwo, hsized, ⟨hanswers, hvalid⟩,
      fun _ => ⟨_, hvalid⟩⟩

/-! ## Whole runs -/

theorem Orderly.step [Inhabited Data]
    (h : Orderly conf state phase) {action : Action Proc Data}
    (hallowed : Undisturbed state action)
    (hstep : step conf state action = some after) :
    ∃ phase', Orderly conf after phase' := by
  cases action with
  | lockAll p =>
      simp only [UserShmInit.step] at hstep
      split at hstep
      · rename_i hpoint
        obtain ⟨⟨ret, locked⟩, hlock, rfl⟩ := Option.map_eq_some_iff.mp hstep
        exact ⟨phase, h.lockAll hpoint hlock⟩
      · cases hstep
  | testMagic p =>
      simp only [UserShmInit.step] at hstep
      split at hstep
      · rename_i hpoint
        split_ifs at hstep with hmagic
        · cases hstep
          exact ⟨.writing p, h.testMagic_missing hpoint hallowed hmagic⟩
        · cases hstep
          exact ⟨phase,
            h.testMagic_found hpoint hallowed (not_not.mp hmagic)⟩
      · cases hstep
  | zeroHead p =>
      simp only [UserShmInit.step] at hstep
      split at hstep
      · rename_i hpoint
        cases hstep
        exact ⟨phase, h.zeroHead hpoint _⟩
      · cases hstep
  | writeMagic p =>
      simp only [UserShmInit.step] at hstep
      split at hstep
      · rename_i hpoint
        cases hstep
        exact ⟨.clearing p, h.writeMagic hpoint⟩
      · cases hstep
  | initMap p =>
      simp only [UserShmInit.step] at hstep
      split at hstep
      · rename_i clearFlag hpoint
        rcases lt_or_ge conf.maxUserNodeNum 2 with hfew | htwo
        · obtain ⟨hret, hsame⟩ := initMap_of_few hfew state.userInfoMap
          have hclosed : state.lockFile p = false := by
            rw [h.lockFile p, hpoint]
            rfl
          rw [if_pos hret, hsame] at hstep
          cases hstep
          rw [unLock_of_closed hclosed]
          exact h.initMap_refused hpoint hfew
        · have hret : (conf.initMap state.userInfoMap).1 = 0 := by
            rw [initMap_of_room htwo]
            rfl
          rw [if_neg (not_not.mpr hret)] at hstep
          cases hstep
          exact ⟨phase, h.initMap_opened hpoint htwo⟩
      · cases hstep
  | clear p =>
      simp only [UserShmInit.step] at hstep
      split at hstep
      · rename_i hpoint
        cases hstep
        exact ⟨.inUse, h.clear hpoint⟩
      · cases hstep
  | verify p =>
      simp only [UserShmInit.step] at hstep
      split at hstep
      · rename_i hpoint
        obtain ⟨hverify, hafter⟩ := h.verify hpoint hallowed
        rw [hverify] at hstep
        cases hstep
        exact ⟨phase, hafter⟩
      · cases hstep
  | initLock p opens =>
      simp only [UserShmInit.step] at hstep
      split at hstep
      · rename_i hpoint
        have hne : state.holder ≠ some p := h.holder_ne (by rw [hpoint]; rfl)
        split_ifs at hstep with hopens
        · cases hstep
          have hopened : ({ state with
              lockFile := Function.update state.lockFile p true } :
                System Proc Data).holder ≠ some p := hne
          rw [unLock_of_not_holder hopened]
          exact ⟨.inUse, h.initLock_opens hpoint⟩
        · cases hstep
          rw [unLock_of_not_holder hne]
          exact ⟨phase, h.initLock_refused hpoint⟩
      · cases hstep
  | beginCall p call =>
      simp only [UserShmInit.step] at hstep
      split at hstep
      · rename_i hpoint
        obtain ⟨⟨ret, locked⟩, hlock, hcall⟩ :=
          Option.map_eq_some_iff.mp hstep
        obtain ⟨answer, writes, hwrites, hafter⟩ :=
          h.beginCall hpoint hlock call
        simp only [hwrites] at hcall
        subst after
        exact ⟨.inUse, hafter⟩
      · cases hstep
  | write p =>
      simp only [UserShmInit.step] at hstep
      split at hstep
      · rename_i begun write pending hpoint
        cases hstep
        exact ⟨.inUse, h.write hpoint⟩
      · cases hstep
  | endCall p =>
      simp only [UserShmInit.step] at hstep
      split at hstep
      · rename_i begun hpoint
        cases hstep
        exact ⟨.inUse, h.endCall hpoint⟩
      · cases hstep

omit [DecidableEq Proc] in
theorem orderly_fresh [Inhabited Data] :
    Orderly conf (fresh Proc Data) .fresh := by
  have hmagic : List.replicate magicSize 0 ≠ conf.magic := by
    intro heq
    have hhead := congrArg List.head? heq
    simp [magicSize, Conf.magic, userMemMagic] at hhead
  constructor
  · exact fun _ => rfl
  · exact ⟨rfl, rfl, hmagic⟩
  · exact fun _ hmap => absurd hmap Bool.false_ne_true
  · intro q
    constructor
    · intro hnone
      exact absurd hnone (by simp [fresh])
    · exact fun hcall => absurd hcall Bool.false_ne_true
  · exact fun _ => rfl

omit [DecidableEq Proc] in
theorem Orderly.not_misled (h : Orderly conf state phase) (p : Proc) :
    (state.point p).misled = false := by
  have hfits := h.fits p
  cases hpoint : state.point p with
  | refused why =>
      cases why <;> cases phase <;>
        simp_all [Phase.Fits, Point.early, Point.writing, Point.clearing,
          Point.attaching, Point.returned, Point.misled]
  | hanging =>
      cases phase <;>
        simp_all [Phase.Fits, Point.early, Point.writing, Point.clearing,
          Point.attaching, Point.returned]
  | _ => rfl

omit [DecidableEq Proc] in
theorem Orderly.clearedOnce (h : Orderly conf state phase) :
    ClearedOnce conf state := by
  constructor
  · cases phase with
    | inUse => exact h.facts.1.le
    | _ => exact h.facts.1.le.trans zero_le_one
  · intro p hreturned
    have hserved : (state.point p).served := by
      cases hpoint : state.point p <;>
        simp_all [Point.returned, Point.served]
    have hphase := h.eq_inUse hserved
    subst phase
    exact h.facts.1
  · intro hclears
    cases phase with
    | inUse => exact h.facts.2.2.2.2.1
    | _ => exact absurd (h.facts.1.symm.trans hclears) zero_ne_one
  · exact h.not_misled

/-- In every run in which no process tests the magic while another writes it, or
verifies the map while another has still to clear it or is in the middle of
changing it. -/
theorem user_map_cleared_once [Inhabited Data]
    (conf : Conf) {state : System Proc Data}
    (hreach : Transition.Reaches (UserShmInit.step conf) Undisturbed
      (fresh Proc Data) state) :
    ClearedOnce conf state := by
  have horderly : ∃ phase, Orderly conf state phase := by
    apply hreach.invariant (fun state => ∃ phase, Orderly conf state phase)
    · exact ⟨.fresh, orderly_fresh⟩
    · rintro before after action ⟨phase, h⟩ hallowed hstep
      exact h.step hallowed hstep
  obtain ⟨phase, h⟩ := horderly
  exact h.clearedOnce

instance [Fintype Proc] (state : System Proc Data)
    (action : Action Proc Data) : Decidable (Undisturbed state action) :=
  match action with
  | .testMagic p => inferInstanceAs
      (Decidable (∀ q, q ≠ p → (state.point q).writing = false))
  | .verify p => inferInstanceAs
      (Decidable (∀ q, q ≠ p →
        (state.point q).clearing = false ∧ (state.point q).midway = false))
  | .lockAll _ | .zeroHead _ | .writeMagic _ | .initMap _ | .clear _
  | .initLock _ _ | .beginCall _ _ | .write _ | .endCall _ => isTrue trivial

end Step

/-- Three nodes, one of them the null pointer. -/
def threeNodes : Conf := ⟨3, 20, #v[0, 0, 0]⟩

/-- The process `true` clears the map and inserts; the process `false` has found
the magic before the `Clear`, and verifies the map after the insertion. -/
def overlappingStart : List (Action Bool ℕ) :=
  [.lockAll true, .lockAll false, .testMagic true, .zeroHead true,
    .writeMagic true, .testMagic false, .initMap false, .initMap true,
    .clear true, .verify true, .initLock true true,
    .beginCall true (.insert 5 7), .write true, .write true, .write true,
    .write true, .write true, .write true, .write true, .endCall true,
    .verify false, .initLock false true, .beginCall false (.get 5)]

theorem user_map_cleared_once_overlapping :
    ∃ state : System Bool ℕ,
      Transition.Reaches (step threeNodes) Undisturbed (fresh Bool ℕ) state ∧
      state.history.map Prod.snd = [⟨success, none⟩, ⟨success, some 7⟩] ∧
      ClearedOnce threeNodes state := by
  have hreplay : ∃ state : System Bool ℕ,
      Transition.replay (step threeNodes) Undisturbed (fresh Bool ℕ)
        overlappingStart = some state ∧
      state.history.map Prod.snd = [⟨success, none⟩, ⟨success, some 7⟩] :=
    ⟨_, rfl, rfl⟩
  obtain ⟨state, hrun, hanswers⟩ := hreplay
  have hreach := Transition.reaches_of_replay hrun
  exact ⟨state, hreach, hanswers, user_map_cleared_once threeNodes hreach⟩

/-- Both processes find the magic missing, and the second clears the map after
the first has inserted into it. -/
def clearedTwice : List (Action Bool ℕ) :=
  [.lockAll true, .lockAll false, .testMagic true, .testMagic false,
    .zeroHead true, .writeMagic true, .initMap true, .clear true,
    .verify true, .initLock true true, .beginCall true (.insert 5 7),
    .write true, .write true, .write true, .write true, .write true,
    .write true, .write true, .endCall true, .zeroHead false,
    .writeMagic false, .initMap false, .clear false,
    .beginCall true (.get 5)]

/-- The second process finds the magic, and verifies before the `Clear`. -/
def verifiedUncleared : List (Action Bool ℕ) :=
  [.lockAll true, .lockAll false, .testMagic true, .zeroHead true,
    .writeMagic true, .testMagic false, .initMap false, .verify false]

theorem concurrent_start_fails :
    (∃ state : System Bool ℕ,
      Transition.Reaches (step threeNodes) (fun _ _ => True) (fresh Bool ℕ)
        state ∧
      state.clears = 2 ∧
      state.history.map Prod.snd =
        [⟨success, none⟩, ⟨eHashListNoNode, none⟩]) ∧
    ∃ state : System Bool ℕ,
      Transition.Reaches (step threeNodes) (fun _ _ => True) (fresh Bool ℕ)
        state ∧
      state.point false =
        .refused (.verify eHashListVerifyIndexHashVal) := by
  have htwice : ∃ state : System Bool ℕ,
      Transition.replay (step threeNodes) (fun _ _ => True) (fresh Bool ℕ)
        clearedTwice = some state ∧
      state.clears = 2 ∧
      state.history.map Prod.snd =
        [⟨success, none⟩, ⟨eHashListNoNode, none⟩] := ⟨_, rfl, rfl, rfl⟩
  have huncleared : ∃ state : System Bool ℕ,
      Transition.replay (step threeNodes) (fun _ _ => True) (fresh Bool ℕ)
        verifiedUncleared = some state ∧
      state.point false =
        .refused (.verify eHashListVerifyIndexHashVal) := ⟨_, rfl, rfl⟩
  obtain ⟨state, hrun, hclears, hanswers⟩ := htwice
  obtain ⟨other, hother, hrefused⟩ := huncleared
  exact ⟨⟨state, Transition.reaches_of_replay hrun, hclears, hanswers⟩,
    other, Transition.reaches_of_replay hother, hrefused⟩

end MessageBus.UserShmInit
