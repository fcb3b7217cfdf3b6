import Mathlib.Data.Finmap
import MessageBus.ConnPositions
import MessageBus.SweepCursor
import MessageBus.Transition

/-!
# The timeout sweep of a conn server

`CheckConn` looks at one connection in each call, at the iterator
`m_itrCurCheckConn`, while `AcceptConn` and `ReleaseConn` change
`m_PosConnMap` under it.  The iterator is the position it points to, or `⊤` at
the end of the map; following one that points to no element is undefined, and
leads to no state here.
-/

namespace MessageBus.ConnSweep

open Positions ProbeLoop SweepCursor

scoped instance linearOrderUInt32 : LinearOrder UInt32 where
  le_refl := UInt32.le_refl
  le_trans _ _ _ := UInt32.le_trans
  lt_iff_le_not_ge first second := by
    rw [UInt32.not_le]
    exact ⟨fun hlt => ⟨UInt32.le_of_lt hlt, hlt⟩, And.right⟩
  le_antisymm _ _ := UInt32.le_antisymm
  le_total := UInt32.le_total
  toDecidableLE := inferInstance
  toDecidableLT := inferInstance
  toDecidableEq := inferInstance

/-- The part of `CConnInfo` the sweep reads. -/
structure CConnInfo where
  lastActTime : ℤ
deriving DecidableEq

structure CConn where
  posConnMap : Finmap fun _ : UInt32 => CConnInfo
  itrCurCheckConn : WithTop UInt32
  connPosCnt : UInt32
  timeOut : ℤ

/-- What a step does with the sweep. -/
inductive Checked where
  | reset
  /-- a listening socket is passed over -/
  | skipped (pos : UInt32)
  | examined (pos : UInt32)
  | nothing
deriving DecidableEq

namespace CConn

/-- `m_itrCurCheckConn++` at a position. -/
def nextConn (conn : CConn) (pos : UInt32) : WithTop UInt32 :=
  behind conn.posConnMap.keys pos

def IsListen (pos : UInt32) : Prop := Positions.CConn.InRange pos .listen

instance (pos : UInt32) : Decidable (IsListen pos) :=
  inferInstanceAs (Decidable (_ ∧ _))

/-- `ReleaseConn` on an iterator at `pos`; only what it does to the map and to
`m_itrCurCheckConn`. -/
def releaseConn (conn : CConn) (pos : UInt32) : Option CConn := do
  let _ ← conn.posConnMap.lookup pos
  let itrCurCheckConn :=
    if conn.itrCurCheckConn = pos then conn.nextConn pos
    else conn.itrCurCheckConn
  some { conn with
    itrCurCheckConn := itrCurCheckConn
    posConnMap := conn.posConnMap.erase pos }

def checkConn (conn : CConn) (now : ℤ) : Option (Checked × CConn) :=
  match conn.itrCurCheckConn with
  | none =>
      some (.reset,
        { conn with itrCurCheckConn := conn.posConnMap.keys.min })
  | some pos => do
      let info ← conn.posConnMap.lookup pos
      if IsListen pos then
        some (.skipped pos, { conn with itrCurCheckConn := conn.nextConn pos })
      else if conn.timeOut < now - info.lastActTime then
        let released ← conn.releaseConn pos
        some (.examined pos, released)
      else
        some (.examined pos, { conn with itrCurCheckConn := conn.nextConn pos })

/-- `AcceptConn` after `accept` has given a socket; `ready` says whether the
calls that set the socket up succeed.  `none` when the search for a position
has not ended within the fuel. -/
def acceptConn (conn : CConn) (fuel : ℕ) (now : ℤ) (ready : Bool) :
    Option CConn :=
  let (connPosCnt, found) :=
    Positions.CConn.acceptConn conn.posConnMap.keys fuel conn.connPosCnt
  found.map fun curConnPos =>
    if ready then
      { conn with
        connPosCnt := connPosCnt
        posConnMap := conn.posConnMap.insert curConnPos ⟨now⟩ }
    else { conn with connPosCnt := connPosCnt }

/-- `Recv`, `Send` or `SendRemainData` of a connection that moves some
bytes. -/
def transfer (conn : CConn) (pos : UInt32) (now : ℤ) : Option CConn := do
  let _ ← conn.posConnMap.lookup pos
  some { conn with posConnMap := conn.posConnMap.insert pos ⟨now⟩ }

inductive Action where
  | checkConn (now : ℤ)
  | releaseConn (pos : UInt32)
  | acceptConn (fuel : ℕ) (now : ℤ) (ready : Bool)
  | transfer (pos : UInt32) (now : ℤ)
deriving DecidableEq

def step (conn : CConn) : Action → Option (Checked × CConn)
  | .checkConn now => conn.checkConn now
  | .releaseConn pos => (conn.releaseConn pos).map (.nothing, ·)
  | .acceptConn fuel now ready =>
      (conn.acceptConn fuel now ready).map (.nothing, ·)
  | .transfer pos now => (conn.transfer pos now).map (.nothing, ·)

/-- The actions of a run, with what each does and leads to. -/
def Run : CConn → List (Action × Checked × CConn) → Prop
  | _, [] => True
  | conn, (action, checked, next) :: steps =>
      conn.step action = some (checked, next) ∧ Run next steps

end CConn

/-! ## The steps as moves of a sweep -/

section Moves

variable {conn next : CConn} {action : CConn.Action} {checked : Checked}

def CConn.sweep (conn : CConn) : Sweep UInt32 :=
  ⟨conn.posConnMap.keys, conn.itrCurCheckConn⟩

def Checked.event : Checked → Event UInt32
  | .reset => .reset
  | .skipped pos => .visit pos
  | .examined pos => .visit pos
  | .nothing => .other

theorem releaseConn_sweep {pos : UInt32}
    (hrelease : conn.releaseConn pos = some next) :
    next.sweep = removeKey conn.sweep pos := by
  obtain ⟨info, -, hnext⟩ := Option.bind_eq_some_iff.mp hrelease
  cases hnext
  rw [CConn.sweep, removeKey, Finmap.keys_erase]
  rfl

/-- What `AcceptConn` does to the map: nothing, or a new connection at a
position not in use. -/
theorem acceptConn_cases {fuel : ℕ} {now : ℤ} {ready : Bool}
    (haccept : conn.acceptConn fuel now ready = some next) :
    ∃ connPosCnt, next = { conn with connPosCnt := connPosCnt } ∨
      ∃ pos, pos ∉ conn.posConnMap ∧
        next = { conn with
          connPosCnt := connPosCnt
          posConnMap := conn.posConnMap.insert pos ⟨now⟩ } := by
  unfold CConn.acceptConn at haccept
  rcases hsearch : Positions.CConn.acceptConn conn.posConnMap.keys fuel
    conn.connPosCnt with ⟨connPosCnt, found⟩
  rw [hsearch] at haccept
  obtain ⟨pos, rfl, hnext⟩ := Option.map_eq_some_iff.mp haccept
  have hfound : probe (nextPosition _ _) _ fuel _ = some pos :=
    congrArg Prod.snd hsearch
  have hfree := probe_free hfound
  rw [decide_eq_false_iff_not, Finmap.mem_keys] at hfree
  cases ready with
  | false => exact ⟨connPosCnt, Or.inl hnext.symm⟩
  | true => exact ⟨connPosCnt, Or.inr ⟨pos, hfree, hnext.symm⟩⟩

theorem moves_of_step (hstep : conn.step action = some (checked, next)) :
    Moves conn.sweep next.sweep checked.event := by
  cases action with
  | checkConn now =>
      simp only [CConn.step, CConn.checkConn] at hstep
      split at hstep
      · next hcursor =>
          cases hstep
          exact ⟨hcursor, rfl⟩
      · next pos hcursor =>
          obtain ⟨info, -, hrest⟩ := Option.bind_eq_some_iff.mp hstep
          split_ifs at hrest with hlisten hidle
          · cases hrest
            exact ⟨hcursor, Or.inl rfl⟩
          · obtain ⟨released, hrelease, hchecked⟩ :=
              Option.bind_eq_some_iff.mp hrest
            cases hchecked
            exact ⟨hcursor, Or.inr (releaseConn_sweep hrelease)⟩
          · cases hrest
            exact ⟨hcursor, Or.inl rfl⟩
  | releaseConn pos =>
      obtain ⟨released, hrelease, hchecked⟩ := Option.map_eq_some_iff.mp hstep
      cases hchecked
      exact Or.inr ⟨pos, releaseConn_sweep hrelease⟩
  | acceptConn fuel now ready =>
      obtain ⟨accepted, haccept, hchecked⟩ := Option.map_eq_some_iff.mp hstep
      cases hchecked
      obtain ⟨connPosCnt, rfl | ⟨pos, -, rfl⟩⟩ := acceptConn_cases haccept
      · exact Or.inl ⟨rfl, Finset.Subset.refl _⟩
      · refine Or.inl ⟨rfl, fun key hkey => ?_⟩
        exact Finmap.mem_keys.mpr
          (Finmap.mem_insert.mpr (Or.inr (Finmap.mem_keys.mp hkey)))
  | transfer pos now =>
      obtain ⟨moved, hmoved, hchecked⟩ := Option.map_eq_some_iff.mp hstep
      cases hchecked
      obtain ⟨info, -, hnext⟩ := Option.bind_eq_some_iff.mp hmoved
      cases hnext
      refine Or.inl ⟨rfl, fun key hkey => ?_⟩
      exact Finmap.mem_keys.mpr
        (Finmap.mem_insert.mpr (Or.inr (Finmap.mem_keys.mp hkey)))

/-- What a step that sees something of the sweep is. -/
theorem checkConn_of_step (hstep : conn.step action = some (checked, next)) :
    (checked = .nothing ↔ ∀ now, action ≠ .checkConn now) ∧
      ∀ pos, checked = .skipped pos → CConn.IsListen pos := by
  cases action with
  | checkConn now =>
      simp only [CConn.step, CConn.checkConn] at hstep
      split at hstep
      · cases hstep
        simp
      · next cursor hcursor =>
          obtain ⟨info, -, hrest⟩ := Option.bind_eq_some_iff.mp hstep
          split_ifs at hrest with hlisten hidle
          · cases hrest
            refine ⟨by simp, ?_⟩
            rintro pos ⟨⟩
            exact hlisten
          · obtain ⟨released, -, hchecked⟩ := Option.bind_eq_some_iff.mp hrest
            cases hchecked
            simp
          · cases hrest
            simp
  | releaseConn pos =>
      obtain ⟨_, -, hchecked⟩ := Option.map_eq_some_iff.mp hstep
      cases hchecked
      simp
  | acceptConn fuel now ready =>
      obtain ⟨_, -, hchecked⟩ := Option.map_eq_some_iff.mp hstep
      cases hchecked
      simp
  | transfer pos now =>
      obtain ⟨_, -, hchecked⟩ := Option.map_eq_some_iff.mp hstep
      cases hchecked
      simp

theorem releaseConn_keeps {released pos : UInt32}
    (hrelease : conn.releaseConn released = some next)
    (hstays : pos ∈ next.posConnMap) :
    next.timeOut = conn.timeOut ∧
      next.posConnMap.lookup pos = conn.posConnMap.lookup pos := by
  obtain ⟨info, -, hnext⟩ := Option.bind_eq_some_iff.mp hrelease
  cases hnext
  exact ⟨rfl, Finmap.lookup_erase_ne (Finmap.mem_erase.mp hstays).1⟩

theorem step_keeps {pos : UInt32}
    (hstep : conn.step action = some (checked, next))
    (hpos : pos ∈ conn.posConnMap) (hstays : pos ∈ next.posConnMap)
    (hquiet : ∀ now, action ≠ .transfer pos now) :
    next.timeOut = conn.timeOut ∧
      next.posConnMap.lookup pos = conn.posConnMap.lookup pos := by
  cases action with
  | checkConn now =>
      simp only [CConn.step, CConn.checkConn] at hstep
      split at hstep
      · cases hstep
        exact ⟨rfl, rfl⟩
      · obtain ⟨info, -, hrest⟩ := Option.bind_eq_some_iff.mp hstep
        split_ifs at hrest
        · cases hrest
          exact ⟨rfl, rfl⟩
        · obtain ⟨released, hrelease, hchecked⟩ :=
            Option.bind_eq_some_iff.mp hrest
          cases hchecked
          exact releaseConn_keeps hrelease hstays
        · cases hrest
          exact ⟨rfl, rfl⟩
  | releaseConn released =>
      obtain ⟨_, hrelease, hchecked⟩ := Option.map_eq_some_iff.mp hstep
      cases hchecked
      exact releaseConn_keeps hrelease hstays
  | acceptConn fuel now ready =>
      obtain ⟨_, haccept, hchecked⟩ := Option.map_eq_some_iff.mp hstep
      cases hchecked
      obtain ⟨connPosCnt, rfl | ⟨fresh, hfresh, rfl⟩⟩ :=
        acceptConn_cases haccept
      · exact ⟨rfl, rfl⟩
      · have hne : pos ≠ fresh := fun heq => hfresh (heq ▸ hpos)
        exact ⟨rfl, Finmap.lookup_insert_of_ne _ hne⟩
  | transfer moved now =>
      obtain ⟨_, hmoved, hchecked⟩ := Option.map_eq_some_iff.mp hstep
      cases hchecked
      obtain ⟨info, -, hnext⟩ := Option.bind_eq_some_iff.mp hmoved
      cases hnext
      have hne : pos ≠ moved := by
        rintro rfl
        exact hquiet now rfl
      exact ⟨rfl, Finmap.lookup_insert_of_ne _ hne⟩

theorem examined_of_idle {pos : UInt32} {info : CConnInfo}
    (hstep : conn.step action = some (.examined pos, next))
    (hinfo : conn.posConnMap.lookup pos = some info)
    (hidle : ∀ now, action = .checkConn now →
      conn.timeOut < now - info.lastActTime) :
    pos ∉ next.posConnMap := by
  cases action with
  | checkConn now =>
      simp only [CConn.step, CConn.checkConn] at hstep
      split at hstep
      · cases hstep
      · next cursor hcursor =>
          obtain ⟨found, hfound, hrest⟩ := Option.bind_eq_some_iff.mp hstep
          split_ifs at hrest with hlisten hlate
          · cases hrest
          · obtain ⟨released, hrelease, hchecked⟩ :=
              Option.bind_eq_some_iff.mp hrest
            cases hchecked
            obtain ⟨_, -, hnext⟩ := Option.bind_eq_some_iff.mp hrelease
            cases hnext
            exact Finmap.notMem_erase_self
          · cases hrest
            rw [hinfo] at hfound
            cases hfound
            exact absurd (hidle now rfl) hlate
  | releaseConn released =>
      obtain ⟨_, -, hchecked⟩ := Option.map_eq_some_iff.mp hstep
      cases hchecked
  | acceptConn fuel now ready =>
      obtain ⟨_, -, hchecked⟩ := Option.map_eq_some_iff.mp hstep
      cases hchecked
  | transfer moved now =>
      obtain ⟨_, -, hchecked⟩ := Option.map_eq_some_iff.mp hstep
      cases hchecked

/-- The iterator a valid state holds can be followed. -/
theorem checkConn_defined (hvalid : conn.sweep.Valid) (now : ℤ) :
    ∃ checked next, conn.checkConn now = some (checked, next) := by
  unfold CConn.checkConn
  split
  · exact ⟨_, _, rfl⟩
  · next pos hcursor =>
      have hmem := Finmap.mem_keys.mp (hvalid pos hcursor)
      obtain ⟨info, hinfo⟩ := Finmap.mem_iff.mp hmem
      rw [CConn.releaseConn, hinfo]
      simp only [Option.bind_eq_bind, Option.bind_some]
      split_ifs <;> exact ⟨_, _, rfl⟩

end Moves

/-! ## Runs -/

section Runs

variable {conn : CConn} {steps : List (CConn.Action × Checked × CConn)}

/-- What a run is for the sweep. -/
def sweepSteps (steps : List (CConn.Action × Checked × CConn)) :
    List (Event UInt32 × Sweep UInt32) :=
  steps.map fun step => (step.2.1.event, step.2.2.sweep)

def lastConn : CConn → List (CConn.Action × Checked × CConn) → CConn
  | conn, [] => conn
  | _, (_, _, next) :: steps => lastConn next steps

theorem run_sweepSteps (hrun : conn.Run steps) :
    SweepCursor.Run conn.sweep (sweepSteps steps) := by
  induction steps generalizing conn with
  | nil => trivial
  | cons step steps ih =>
      obtain ⟨action, checked, next⟩ := step
      exact ⟨moves_of_step hrun.1, ih hrun.2⟩

theorem final_sweepSteps :
    final conn.sweep (sweepSteps steps) = (lastConn conn steps).sweep := by
  induction steps generalizing conn with
  | nil => rfl
  | cons step steps ih => exact ih

theorem run_append {later : List (CConn.Action × Checked × CConn)} :
    conn.Run (steps ++ later) ↔
      conn.Run steps ∧ (lastConn conn steps).Run later := by
  induction steps generalizing conn with
  | nil => exact ⟨fun hrun => ⟨trivial, hrun⟩, And.right⟩
  | cons step steps ih =>
      obtain ⟨action, checked, next⟩ := step
      simp only [List.cons_append, CConn.Run, lastConn, ih, and_assoc]

theorem step_of_mem (hrun : conn.Run steps)
    {step : CConn.Action × Checked × CConn} (hmem : step ∈ steps) :
    ∃ before : CConn, before.step step.1 = some step.2 := by
  induction steps generalizing conn with
  | nil => exact absurd hmem List.not_mem_nil
  | cons first steps ih =>
      rcases List.mem_cons.mp hmem with rfl | hmem
      · exact ⟨conn, hrun.1⟩
      · exact ih hrun.2 hmem

/-- How often a position is examined in a run. -/
def examined (steps : List (CConn.Action × Checked × CConn))
    (pos : UInt32) : ℕ :=
  (steps.map fun step => step.2.1).count (.examined pos)

theorem examined_eq_visits (hrun : conn.Run steps) {pos : UInt32}
    (hlisten : ¬ CConn.IsListen pos) :
    examined steps pos = visits (sweepSteps steps) pos := by
  unfold examined visits sweepSteps
  rw [List.map_map, List.count, List.count, List.countP_map, List.countP_map]
  apply List.countP_congr
  intro step hmem
  obtain ⟨before, hstep⟩ := step_of_mem hrun hmem
  have hskipped := (checkConn_of_step hstep).2 pos
  simp only [Function.comp_apply, beq_iff_eq]
  cases hchecked : step.2.1 with
  | reset => simp [Checked.event]
  | nothing => simp [Checked.event]
  | examined other => simp [Checked.event]
  | skipped other =>
      have hne : other ≠ pos := by
        rintro rfl
        exact hlisten (hskipped hchecked)
      simp [Checked.event, hne]

/-- While a connection stays, moves no bytes and is past its time at every
check, it is not examined. -/
theorem not_visited_of_idle {pos : UInt32} {info : CConnInfo}
    (hrun : conn.Run steps) (hinfo : conn.posConnMap.lookup pos = some info)
    (hlisten : ¬ CConn.IsListen pos)
    (hquiet : ∀ step ∈ steps, ∀ now, step.1 ≠ .transfer pos now)
    (hidle : ∀ step ∈ steps, ∀ now, step.1 = .checkConn now →
      conn.timeOut < now - info.lastActTime)
    (hstays : ∀ step ∈ steps, pos ∈ step.2.2.posConnMap) :
    ∀ step ∈ steps, step.2.1.event ≠ .visit pos := by
  induction steps generalizing conn with
  | nil => exact fun _ hmem => absurd hmem List.not_mem_nil
  | cons first steps ih =>
      obtain ⟨action, checked, next⟩ := first
      rw [List.forall_mem_cons] at hquiet hidle hstays ⊢
      have hpos : pos ∈ conn.posConnMap := Finmap.mem_of_lookup_eq_some hinfo
      have hkeeps := step_keeps hrun.1 hpos hstays.1 hquiet.1
      constructor
      · intro hevent
        cases checked with
        | reset => cases hevent
        | nothing => cases hevent
        | skipped skipped =>
            cases hevent
            exact hlisten ((checkConn_of_step hrun.1).2 pos rfl)
        | examined examined =>
            cases hevent
            exact examined_of_idle hrun.1 hinfo hidle.1 hstays.1
      · apply ih hrun.2 (hkeeps.2.trans hinfo) hquiet.2 _ hstays.2
        rw [hkeeps.1]
        exact hidle.2

def isCheck : CConn.Action → Bool
  | .checkConn _ => true
  | _ => false

theorem moved_sweepSteps (hrun : conn.Run steps) :
    moved (sweepSteps steps) = steps.countP fun step => isCheck step.1 := by
  unfold moved sweepSteps
  rw [List.countP_map]
  apply List.countP_congr
  intro step hmem
  obtain ⟨before, hstep⟩ := step_of_mem hrun hmem
  have hnothing := (checkConn_of_step hstep).1
  have hother : step.2.1.event = .other ↔ step.2.1 = .nothing := by
    cases step.2.1 <;> simp [Checked.event]
  simp only [Function.comp_apply, decide_eq_true_eq]
  rw [Ne, hother, hnothing]
  cases step.1 <;> simp [isCheck]

/-- The place of a position; the end of the map comes last. -/
def rank : WithTop UInt32 → ℕ
  | none => 2 ^ 32
  | some pos => pos.toNat

theorem rank_strictMono : StrictMono rank := by
  intro first second hlt
  cases second with
  | top =>
      obtain ⟨pos, rfl⟩ := WithTop.ne_top_iff_exists.mp hlt.ne
      exact pos.toNat_lt
  | coe second =>
      obtain ⟨pos, rfl⟩ := WithTop.ne_top_iff_exists.mp
        (hlt.trans (WithTop.coe_lt_top second)).ne
      exact UInt32.lt_iff_toNat_lt.mp (WithTop.coe_lt_coe.mp hlt)

theorem examined_once {pos : UInt32} {action action' : CConn.Action}
    {first last : CConn} {round : List (CConn.Action × Checked × CConn)}
    (hrun : conn.Run ((action, .reset, first) :: round ++
      [(action', .reset, last)]))
    (hreset : ∀ step ∈ round, step.2.1 ≠ .reset)
    (hlisten : ¬ CConn.IsListen pos) (hpos : pos ∈ first.posConnMap)
    (hstays : ∀ step ∈ round, pos ∈ step.2.2.posConnMap) :
    examined round pos = 1 := by
  obtain ⟨hstart, hround⟩ := hrun
  obtain ⟨hround, hlast⟩ := run_append.mp hround
  have hfirst : first.sweep = ⟨conn.sweep.keys, conn.sweep.keys.min⟩ :=
    (moves_of_step hstart).2
  have hend : (lastConn first round).sweep.cursor = ⊤ :=
    (moves_of_step hlast.1).1
  rw [examined_eq_visits hround hlisten]
  apply visited_once (run_sweepSteps hround)
  · rw [hfirst]
  · rw [final_sweepSteps, hend]
  · intro step hmem
    obtain ⟨source, hsource, rfl⟩ := List.mem_map.mp hmem
    have hne := hreset source hsource
    intro hevent
    cases hchecked : source.2.1 with
    | reset => exact hne hchecked
    | skipped _ => rw [hchecked] at hevent; cases hevent
    | examined _ => rw [hchecked] at hevent; cases hevent
    | nothing => rw [hchecked] at hevent; cases hevent
  · exact Finmap.mem_keys.mpr hpos
  · intro step hmem
    obtain ⟨source, hsource, rfl⟩ := List.mem_map.mp hmem
    exact Finmap.mem_keys.mpr (hstays source hsource)

theorem idle_released {pos : UInt32} {info : CConnInfo}
    (hrun : conn.Run steps) (hinfo : conn.posConnMap.lookup pos = some info)
    (hlisten : ¬ CConn.IsListen pos)
    (hquiet : ∀ step ∈ steps, ∀ now, step.1 ≠ .transfer pos now)
    (hidle : ∀ step ∈ steps, ∀ now, step.1 = .checkConn now →
      conn.timeOut < now - info.lastActTime)
    (hchecks : 2 * 2 ^ 32 < steps.countP fun step => isCheck step.1) :
    ∃ step ∈ steps, pos ∉ step.2.2.posConnMap := by
  by_contra hnone
  push Not at hnone
  have hvisit := not_visited_of_idle hrun hinfo hlisten hquiet hidle hnone
  have hpos : pos ∈ conn.sweep.keys :=
    Finmap.mem_keys.mpr (Finmap.mem_of_lookup_eq_some hinfo)
  have hmoved : moved (sweepSteps steps) ≤ 2 * rank ⊤ := by
    apply moved_le rank_strictMono (run_sweepSteps hrun) _ hpos
    · intro step hmem
      obtain ⟨source, hsource, rfl⟩ := List.mem_map.mp hmem
      exact Finmap.mem_keys.mpr (hnone source hsource)
    · intro step hmem
      obtain ⟨source, hsource, rfl⟩ := List.mem_map.mp hmem
      exact hvisit source hsource
  rw [moved_sweepSteps hrun] at hmoved
  exact absurd hmoved (not_le.mpr hchecks)

end Runs

/-! ## Every interleaving -/

/-- `CheckConn`, `AcceptConn` and `ReleaseConn` in any order, from a server
that has just been set up. -/
def Reachable (start conn : CConn) : Prop :=
  Transition.Reaches
    (fun conn action => (CConn.step conn action).map Prod.snd)
    (fun _ _ => True) start conn

theorem valid_of_reachable {start conn : CConn}
    (hstart : start.itrCurCheckConn = ⊤) (hreach : Reachable start conn) :
    conn.sweep.Valid := by
  apply hreach.invariant fun conn => conn.sweep.Valid
  · intro key hkey
    change start.itrCurCheckConn = key at hkey
    rw [hstart] at hkey
    exact absurd hkey WithTop.top_ne_coe
  · intro before after action hvalid _ hstep
    obtain ⟨⟨checked, next⟩, hnext, rfl⟩ := Option.map_eq_some_iff.mp hstep
    exact (moves_of_step hnext).valid hvalid

/-- The iterator is always the end or a position in the map, so that it can be
followed; between two resets a connection that stays is examined once; and a
connection idle for too long is released within a bounded number of calls of
`CheckConn`. -/
theorem conn_sweep_exact
    {start conn : CConn} (hstart : start.itrCurCheckConn = ⊤)
    (hreach : Reachable start conn) :
    (∀ pos : UInt32, conn.itrCurCheckConn = pos → pos ∈ conn.posConnMap) ∧
    (∀ now, ∃ checked next, conn.checkConn now = some (checked, next)) ∧
    (∀ (action action' : CConn.Action) (first last : CConn)
      (round : List (CConn.Action × Checked × CConn)) (pos : UInt32),
      conn.Run ((action, .reset, first) :: round ++
        [(action', .reset, last)]) →
      (∀ step ∈ round, step.2.1 ≠ .reset) → ¬ CConn.IsListen pos →
      pos ∈ first.posConnMap → (∀ step ∈ round, pos ∈ step.2.2.posConnMap) →
      examined round pos = 1) ∧
    ∀ (steps : List (CConn.Action × Checked × CConn)) (pos : UInt32)
      (info : CConnInfo),
      conn.Run steps → conn.posConnMap.lookup pos = some info →
      ¬ CConn.IsListen pos →
      (∀ step ∈ steps, ∀ now, step.1 ≠ .transfer pos now) →
      (∀ step ∈ steps, ∀ now, step.1 = .checkConn now →
        conn.timeOut < now - info.lastActTime) →
      (2 * 2 ^ 32 < steps.countP fun step => isCheck step.1) →
      ∃ step ∈ steps, pos ∉ step.2.2.posConnMap := by
  have hvalid := valid_of_reachable hstart hreach
  refine ⟨?_, checkConn_defined hvalid, ?_, ?_⟩
  · intro pos hpos
    exact Finmap.mem_keys.mp (hvalid pos hpos)
  · intro action action' first last round pos hrun hreset hlisten hpos hstays
    exact examined_once hrun hreset hlisten hpos hstays
  · intro steps pos info hrun hinfo hlisten hquiet hidle hchecks
    exact idle_released hrun hinfo hlisten hquiet hidle hchecks

/-- A round over a listening socket and a connection accepted just before. -/
theorem conn_sweep_exact_round :
    ∃ conn first one two last : CConn,
      Reachable ⟨Finmap.singleton 100 ⟨0⟩, ⊤, 0, 600⟩ conn ∧
      conn.Run ((.checkConn 10, .reset, first) ::
        [(.checkConn 11, .skipped 100, one),
          (.checkConn 12, .examined 501, two)] ++
        [(.checkConn 13, .reset, last)]) ∧
      examined [(.checkConn 11, .skipped 100, one),
        (.checkConn 12, .examined 501, two)] 501 = 1 := by
  have haccept : CConn.step ⟨Finmap.singleton 100 ⟨0⟩, ⊤, 0, 600⟩
      (.acceptConn 1 0 true) = some (.nothing,
        ⟨(Finmap.singleton 100 ⟨0⟩).insert 501 ⟨0⟩, ⊤, 501, 600⟩) := rfl
  have hreach : Reachable ⟨Finmap.singleton 100 ⟨0⟩, ⊤, 0, 600⟩
      ⟨(Finmap.singleton 100 ⟨0⟩).insert 501 ⟨0⟩, ⊤, 501, 600⟩ :=
    Transition.Reaches.refl.next trivial (congrArg (Option.map Prod.snd) haccept)
  have hrun : CConn.Run
      ⟨(Finmap.singleton 100 ⟨0⟩).insert 501 ⟨0⟩, ⊤, 501, 600⟩
      ((.checkConn 10, .reset,
        ⟨(Finmap.singleton 100 ⟨0⟩).insert 501 ⟨0⟩, (100 : UInt32), 501, 600⟩) ::
        [(.checkConn 11, .skipped 100,
          ⟨(Finmap.singleton 100 ⟨0⟩).insert 501 ⟨0⟩, (501 : UInt32), 501,
            600⟩),
          (.checkConn 12, .examined 501,
            ⟨(Finmap.singleton 100 ⟨0⟩).insert 501 ⟨0⟩, ⊤, 501, 600⟩)] ++
        [(.checkConn 13, .reset,
          ⟨(Finmap.singleton 100 ⟨0⟩).insert 501 ⟨0⟩, (100 : UInt32), 501,
            600⟩)]) :=
    ⟨rfl, rfl, rfl, rfl, trivial⟩
  refine ⟨_, _, _, _, _, hreach, hrun, ?_⟩
  apply (conn_sweep_exact rfl hreach).2.2.1 _ _ _ _ _ _ hrun
  · simp
  · decide
  · decide
  · intro step hmem
    simp only [List.mem_cons, List.not_mem_nil, or_false] at hmem
    rcases hmem with rfl | rfl
    · decide
    · decide

end MessageBus.ConnSweep
