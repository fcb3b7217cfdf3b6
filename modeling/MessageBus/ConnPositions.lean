import MessageBus.ProbeLoop

/-!
# Positions for new connections

The loops of `CBus::AcceptConn`, `CBus::ConnectCluster` and
`CConn::AcceptConn` that look for a position which no open connection has.
The keys of `m_PosConnMap` are a finite set of 32-bit numbers.
-/

namespace MessageBus.Positions

open ProbeLoop

/-! ## The search -/

section Search

variable (outside : UInt32 → Bool) (min : UInt32)

/-- The position tried after `pos`. -/
def nextPosition (pos : UInt32) : UInt32 :=
  if outside (pos + 1) then min + 1 else pos + 1

/-- The counter after the call, and the position the loop ends with; `none`
when it has not ended within `fuel` iterations. -/
def choosePosition (posConnMap : Finset UInt32) (fuel : ℕ) (posCnt : UInt32) :
    UInt32 × Option UInt32 :=
  let posCnt := posCnt + 1
  let curConnPos := if outside posCnt then min + 1 else posCnt
  (curConnPos, probe (nextPosition outside min)
    (fun pos => decide (pos ∈ posConnMap)) fuel curConnPos)

end Search

/-- What a position is for. -/
inductive PosKind where
  | listen
  | listenUdp
  | cluster
  | client
deriving DecidableEq

namespace CBus

def listenSockCposMin : UInt32 := 100
def listenSockCposMax : UInt32 := 149
def listenUdpCposMin : UInt32 := 150
def listenUdpCposMax : UInt32 := 199
def clusterSockCposMin : UInt32 := 200000
def clusterSockCposMax : UInt32 := 299999
def clientSockCposMin : UInt32 := 300000

def InRange (pos : UInt32) : PosKind → Prop
  | .listen => listenSockCposMin ≤ pos ∧ pos ≤ listenSockCposMax
  | .listenUdp => listenUdpCposMin ≤ pos ∧ pos ≤ listenUdpCposMax
  | .cluster => clusterSockCposMin ≤ pos ∧ pos ≤ clusterSockCposMax
  | .client => clientSockCposMin ≤ pos

def acceptConn : Finset UInt32 → ℕ → UInt32 → UInt32 × Option UInt32 :=
  choosePosition (fun pos => decide (pos < clientSockCposMin)) clientSockCposMin

def connectCluster : Finset UInt32 → ℕ → UInt32 → UInt32 × Option UInt32 :=
  choosePosition
    (fun pos => decide (pos < clusterSockCposMin ∨ clusterSockCposMax < pos))
    clusterSockCposMin

end CBus

namespace CConn

def listenSockCposMin : UInt32 := 100
def listenSockCposMax : UInt32 := 199
def clientSockCposMin : UInt32 := 500

def InRange (pos : UInt32) : PosKind → Prop
  | .listen => listenSockCposMin ≤ pos ∧ pos ≤ listenSockCposMax
  | .client => clientSockCposMin ≤ pos
  | .listenUdp | .cluster => False

def acceptConn : Finset UInt32 → ℕ → UInt32 → UInt32 × Option UInt32 :=
  choosePosition (fun pos => decide (pos < clientSockCposMin)) clientSockCposMin

end CConn

/-! ## The positions the loop visits -/

section Visit

variable {outside : UInt32 → Bool} {min max : UInt32}

/-- The test of the loops against the ends of a range. -/
structure Bounds (outside : UInt32 → Bool) (min max : UInt32) : Prop where
  pos : 0 < min
  lt : min < max
  outside_iff : ∀ pos, outside pos = true ↔ pos < min ∨ max < pos

theorem toNat_succ {pos bound : UInt32} (hpos : pos < bound) :
    (pos + 1).toNat = pos.toNat + 1 := by
  have hlt := UInt32.lt_iff_toNat_lt.mp hpos
  have hbound := bound.toNat_lt
  rw [UInt32.toNat_add, UInt32.toNat_one]
  exact Nat.mod_eq_of_lt (by omega)

theorem nextPosition_of_lt (hbounds : Bounds outside min max) {pos : UInt32}
    (hmin : min ≤ pos) (hmax : pos < max) :
    nextPosition outside min pos = pos + 1 := by
  have hsucc := toNat_succ hmax
  rw [UInt32.le_iff_toNat_le] at hmin
  rw [UInt32.lt_iff_toNat_lt] at hmax
  have hinside : ¬ outside (pos + 1) = true := by
    rw [hbounds.outside_iff, UInt32.lt_iff_toNat_lt, UInt32.lt_iff_toNat_lt]
    omega
  rw [nextPosition, if_neg hinside]

/-- Behind the last position the loops go on with the second one. -/
theorem nextPosition_max (hbounds : Bounds outside min max) :
    nextPosition outside min max = min + 1 := by
  have hpos := UInt32.lt_iff_toNat_lt.mp hbounds.pos
  rw [UInt32.toNat_zero] at hpos
  have hmax := max.toNat_lt
  have houtside : outside (max + 1) = true := by
    rw [hbounds.outside_iff, UInt32.lt_iff_toNat_lt, UInt32.lt_iff_toNat_lt,
      UInt32.toNat_add, UInt32.toNat_one]
    omega
  rw [nextPosition, if_pos houtside]

theorem nextPosition_mem (hbounds : Bounds outside min max) (pos : UInt32) :
    nextPosition outside min pos = pos + 1 ∧ min ≤ pos + 1 ∧ pos + 1 ≤ max ∨
      nextPosition outside min pos = min + 1 := by
  rw [nextPosition]
  split_ifs with houtside
  · exact Or.inr rfl
  · rw [hbounds.outside_iff, not_or, UInt32.not_lt, UInt32.not_lt] at houtside
    exact Or.inl ⟨rfl, houtside⟩

/-- Once in the range the loops stay there, and do not come to its first
position again. -/
theorem nextPosition_inside (hbounds : Bounds outside min max) {pos : UInt32}
    (hmin : min ≤ pos) (hmax : pos ≤ max) :
    min < nextPosition outside min pos ∧
      nextPosition outside min pos ≤ max := by
  have hfirst := toNat_succ hbounds.lt
  have hlt := UInt32.lt_iff_toNat_lt.mp hbounds.lt
  by_cases hless : pos < max
  · have hsucc := toNat_succ hless
    rw [UInt32.le_iff_toNat_le] at hmin
    rw [UInt32.lt_iff_toNat_lt] at hless
    rw [nextPosition_of_lt hbounds (UInt32.le_iff_toNat_le.mpr hmin)
      (UInt32.lt_iff_toNat_lt.mpr hless), UInt32.lt_iff_toNat_lt,
      UInt32.le_iff_toNat_le]
    omega
  · have heq : pos = max :=
      UInt32.le_antisymm hmax (UInt32.not_lt.mp hless)
    rw [heq, nextPosition_max hbounds, UInt32.lt_iff_toNat_lt,
      UInt32.le_iff_toNat_le]
    omega

theorem iterate_toNat (hbounds : Bounds outside min max) {pos : UInt32}
    (hmin : min ≤ pos) {steps : ℕ} (hsteps : pos.toNat + steps ≤ max.toNat) :
    ((nextPosition outside min)^[steps] pos).toNat = pos.toNat + steps := by
  induction steps with
  | zero => rfl
  | succ steps ih =>
      have hbefore := ih (by omega)
      have hlow : min ≤ (nextPosition outside min)^[steps] pos := by
        rw [UInt32.le_iff_toNat_le] at hmin ⊢
        omega
      have hless : (nextPosition outside min)^[steps] pos < max := by
        rw [UInt32.lt_iff_toNat_lt]
        omega
      rw [Function.iterate_succ_apply', nextPosition_of_lt hbounds hlow hless,
        toNat_succ hless, hbefore]
      rfl

theorem exists_iterate_of_le (hbounds : Bounds outside min max)
    {pos target : UInt32} (hmin : min ≤ pos) (hle : pos ≤ target)
    (hmax : target ≤ max) :
    ∃ steps, (nextPosition outside min)^[steps] pos = target := by
  rw [UInt32.le_iff_toNat_le] at hle hmax
  refine ⟨target.toNat - pos.toNat, UInt32.toNat_inj.mp ?_⟩
  rw [iterate_toNat hbounds hmin (by omega)]
  omega

/-- From any place in the range the loops come to each position but the
first. -/
theorem exists_iterate (hbounds : Bounds outside min max) {pos target : UInt32}
    (hmin : min ≤ pos) (hmax : pos ≤ max) (hlow : min < target)
    (hhigh : target ≤ max) :
    ∃ steps, (nextPosition outside min)^[steps] pos = target := by
  have hfirst : min + 1 ≤ target := by
    have hsucc := toNat_succ hbounds.lt
    rw [UInt32.lt_iff_toNat_lt] at hlow
    rw [UInt32.le_iff_toNat_le]
    omega
  have hsecond : min ≤ min + 1 := by
    rw [UInt32.le_iff_toNat_le, toNat_succ hbounds.lt]
    exact Nat.le_succ _
  obtain ⟨toMax, htoMax⟩ := exists_iterate_of_le hbounds hmin hmax (UInt32.le_refl max)
  obtain ⟨toTarget, htoTarget⟩ :=
    exists_iterate_of_le hbounds hsecond hfirst hhigh
  refine ⟨toTarget + (1 + toMax), ?_⟩
  rw [Function.iterate_add_apply, Function.iterate_add_apply, htoMax,
    Function.iterate_one, nextPosition_max hbounds, htoTarget]

theorem curConnPos_inside (hbounds : Bounds outside min max)
    (posCnt : UInt32) :
    min ≤ nextPosition outside min posCnt ∧
      nextPosition outside min posCnt ≤ max := by
  have hsecond := toNat_succ hbounds.lt
  have hlt := UInt32.lt_iff_toNat_lt.mp hbounds.lt
  rcases nextPosition_mem hbounds posCnt with ⟨hnext, hinside⟩ | hnext
  · rw [hnext]
    exact hinside
  · rw [hnext, UInt32.le_iff_toNat_le, UInt32.le_iff_toNat_le]
    omega

end Visit

/-! ## Which searches end -/

section Ends

variable {outside : UInt32 → Bool} {min max : UInt32}
  {posConnMap : Finset UInt32} {posCnt : UInt32}

/-- The search ends, and with a position that is free and as it should be. -/
def FindsFresh (search : ℕ → UInt32 × Option UInt32)
    (posConnMap : Finset UInt32) (proper : UInt32 → Prop) : Prop :=
  (∃ fuel found, (search fuel).2 = some found) ∧
    ∀ fuel found, (search fuel).2 = some found →
      found ∉ posConnMap ∧ proper found

/-- A position other than the first of the range is free, or the first is free
and the counter is just before it. -/
def Reachable (min max : UInt32) (posConnMap : Finset UInt32)
    (posCnt : UInt32) : Prop :=
  (∃ pos, min < pos ∧ pos ≤ max ∧ pos ∉ posConnMap) ∨
    posCnt + 1 = min ∧ min ∉ posConnMap

theorem choosePosition_snd (fuel : ℕ) :
    (choosePosition outside min posConnMap fuel posCnt).2 =
      probe (nextPosition outside min) (fun pos => decide (pos ∈ posConnMap))
        fuel (nextPosition outside min posCnt) := rfl

theorem choosePosition_ends_iff (hbounds : Bounds outside min max) :
    (∃ fuel found,
      (choosePosition outside min posConnMap fuel posCnt).2 = some found) ↔
      Reachable min max posConnMap posCnt := by
  have hinside := curConnPos_inside hbounds posCnt
  simp only [choosePosition_snd, probe_ends_iff, decide_eq_false_iff_not]
  constructor
  · rintro ⟨steps, hfree⟩
    cases steps with
    | zero =>
        rw [Function.iterate_zero_apply] at hfree
        by_cases hfirst : nextPosition outside min posCnt = min
        · have hsecond := toNat_succ hbounds.lt
          have hcnt : posCnt + 1 = min := by
            rcases nextPosition_mem hbounds posCnt with ⟨hnext, -⟩ | hnext
            · rw [← hnext, hfirst]
            · rw [← hnext, hfirst] at hsecond
              omega
          rw [hfirst] at hfree
          exact Or.inr ⟨hcnt, hfree⟩
        · have hlow : min < nextPosition outside min posCnt :=
            UInt32.lt_of_le_of_ne hinside.1 (Ne.symm hfirst)
          exact Or.inl ⟨_, hlow, hinside.2, hfree⟩
    | succ steps =>
        have hbefore : min ≤ (nextPosition outside min)^[steps]
            (nextPosition outside min posCnt) ∧
            (nextPosition outside min)^[steps]
              (nextPosition outside min posCnt) ≤ max := by
          clear hfree
          induction steps with
          | zero => exact hinside
          | succ steps ih =>
              have hnext := nextPosition_inside hbounds ih.1 ih.2
              rw [Function.iterate_succ_apply']
              exact ⟨UInt32.le_of_lt hnext.1, hnext.2⟩
        have hnext := nextPosition_inside hbounds hbefore.1 hbefore.2
        rw [Function.iterate_succ_apply'] at hfree
        exact Or.inl ⟨_, hnext.1, hnext.2, hfree⟩
  · rintro (⟨pos, hlow, hhigh, hfree⟩ | ⟨hcnt, hfree⟩)
    · obtain ⟨steps, hsteps⟩ :=
        exists_iterate hbounds hinside.1 hinside.2 hlow hhigh
      exact ⟨steps, by rw [hsteps]; exact hfree⟩
    · have hmin : ¬ outside min = true := by
        have hlt := UInt32.lt_iff_toNat_lt.mp hbounds.lt
        rw [hbounds.outside_iff, UInt32.lt_iff_toNat_lt,
          UInt32.lt_iff_toNat_lt]
        omega
      refine ⟨0, ?_⟩
      rw [Function.iterate_zero_apply, nextPosition, hcnt, if_neg hmin]
      exact hfree

theorem choosePosition_findsFresh_iff (hbounds : Bounds outside min max)
    {proper : UInt32 → Prop}
    (hproper : ∀ pos, min ≤ pos → pos ≤ max → proper pos) :
    FindsFresh (fun fuel => choosePosition outside min posConnMap fuel posCnt)
      posConnMap proper ↔ Reachable min max posConnMap posCnt := by
  refine ⟨fun hfinds => (choosePosition_ends_iff hbounds).mp hfinds.1,
    fun hreach => ⟨(choosePosition_ends_iff hbounds).mpr hreach, ?_⟩⟩
  intro fuel found hfound
  rw [choosePosition_snd] at hfound
  have hfree := probe_free hfound
  have hrange := probe_mem (fun pos (hpos : min ≤ pos ∧ pos ≤ max) =>
      have hnext := nextPosition_inside hbounds hpos.1 hpos.2
      And.intro (UInt32.le_of_lt hnext.1) hnext.2)
    (curConnPos_inside hbounds posCnt) hfound
  exact ⟨of_decide_eq_false hfree, hproper found hrange.1 hrange.2⟩

end Ends

/-! ## The three servers' searches -/

/-- A position of a range, and of no other one. -/
def Proper (inRange : UInt32 → PosKind → Prop) (kind : PosKind)
    (pos : UInt32) : Prop :=
  inRange pos kind ∧ ∀ other, other ≠ kind → ¬ inRange pos other

def largest : UInt32 := 4294967295

theorem le_largest (pos : UInt32) : pos ≤ largest := by
  have hlt := pos.toNat_lt
  rw [UInt32.le_iff_toNat_le]
  change pos.toNat ≤ 4294967295
  omega

/-- The tests of the two `AcceptConn`, which only know the lower end. -/
theorem bounds_client {min : UInt32} (hpos : 0 < min) (hlt : min < largest) :
    Bounds (fun pos => decide (pos < min)) min largest where
  pos := hpos
  lt := hlt
  outside_iff pos := by
    have hle := UInt32.not_lt.mpr (le_largest pos)
    rw [decide_eq_true_iff]
    exact ⟨Or.inl, fun h => h.resolve_right hle⟩

theorem bounds_cluster :
    Bounds (fun pos => decide (pos < CBus.clusterSockCposMin ∨
      CBus.clusterSockCposMax < pos)) CBus.clusterSockCposMin
      CBus.clusterSockCposMax where
  pos := by decide
  lt := by decide
  outside_iff pos := decide_eq_true_iff

theorem not_le_of_above {pos low high min : UInt32} (hhigh : high < min)
    (hmin : min ≤ pos) : ¬ (low ≤ pos ∧ pos ≤ high) :=
  fun hpos => UInt32.not_lt.mpr hpos.2 (UInt32.lt_of_lt_of_le hhigh hmin)

theorem proper_busClient {pos : UInt32} (hmin : CBus.clientSockCposMin ≤ pos) :
    Proper CBus.InRange .client pos := by
  refine ⟨hmin, fun other hother => ?_⟩
  cases other with
  | listen => exact not_le_of_above (by decide) hmin
  | listenUdp => exact not_le_of_above (by decide) hmin
  | cluster => exact not_le_of_above (by decide) hmin
  | client => exact absurd rfl hother

theorem proper_cluster {pos : UInt32} (hmin : CBus.clusterSockCposMin ≤ pos)
    (hmax : pos ≤ CBus.clusterSockCposMax) :
    Proper CBus.InRange .cluster pos := by
  refine ⟨⟨hmin, hmax⟩, fun other hother => ?_⟩
  cases other with
  | listen => exact not_le_of_above (by decide) hmin
  | listenUdp => exact not_le_of_above (by decide) hmin
  | cluster => exact absurd rfl hother
  | client =>
      exact fun hclient => not_le_of_above (by decide) hclient ⟨hmin, hmax⟩

theorem proper_connClient {pos : UInt32}
    (hmin : CConn.clientSockCposMin ≤ pos) :
    Proper CConn.InRange .client pos := by
  refine ⟨hmin, fun other hother => ?_⟩
  cases other with
  | listen => exact not_le_of_above (by decide) hmin
  | listenUdp => exact False.elim
  | cluster => exact False.elim
  | client => exact absurd rfl hother

/-- For every counter and every set of open connections: the searches end with
a fresh position of their range if and only if they come to one. -/
theorem conn_positions_fresh_iff
    (posConnMap : Finset UInt32) (posCnt : UInt32) :
    (FindsFresh (fun fuel => CBus.acceptConn posConnMap fuel posCnt)
        posConnMap (Proper CBus.InRange .client) ↔
      Reachable CBus.clientSockCposMin largest posConnMap posCnt) ∧
    (FindsFresh (fun fuel => CBus.connectCluster posConnMap fuel posCnt)
        posConnMap (Proper CBus.InRange .cluster) ↔
      Reachable CBus.clusterSockCposMin CBus.clusterSockCposMax posConnMap
        posCnt) ∧
    (FindsFresh (fun fuel => CConn.acceptConn posConnMap fuel posCnt)
        posConnMap (Proper CConn.InRange .client) ↔
      Reachable CConn.clientSockCposMin largest posConnMap posCnt) :=
  ⟨choosePosition_findsFresh_iff (bounds_client (by decide) (by decide))
      fun _ hmin _ => proper_busClient hmin,
    choosePosition_findsFresh_iff bounds_cluster fun _ => proper_cluster,
    choosePosition_findsFresh_iff (bounds_client (by decide) (by decide))
      fun _ hmin _ => proper_connClient hmin⟩

/-- With every cluster position but the first taken, `ConnectCluster` does not
end, although the first is free. -/
theorem connectCluster_never_ends :
    ∃ (posConnMap : Finset UInt32) (posCnt : UInt32),
      posConnMap.card < 100000 ∧ CBus.clusterSockCposMin ∉ posConnMap ∧
      ∀ fuel, (CBus.connectCluster posConnMap fuel posCnt).2 = none := by
  let numbers : Finset ℕ := Finset.Icc 200001 299999
  have hmem (pos : UInt32) :
      pos ∈ numbers.image UInt32.ofNat ↔
        200001 ≤ pos.toNat ∧ pos.toNat ≤ 299999 := by
    rw [Finset.mem_image]
    constructor
    · rintro ⟨number, hnumber, rfl⟩
      have hrange := Finset.mem_Icc.mp hnumber
      have hlt : number < UInt32.size := hrange.2.trans_lt (by decide)
      rw [UInt32.toNat_ofNat_of_lt' hlt]
      exact hrange
    · intro hrange
      exact ⟨pos.toNat, Finset.mem_Icc.mpr hrange, UInt32.ofNat_toNat⟩
  refine ⟨numbers.image UInt32.ofNat, 0, ?_, ?_, ?_⟩
  · have hcard := Finset.card_image_le (f := UInt32.ofNat) (s := numbers)
    rw [Nat.card_Icc] at hcard
    omega
  · rw [hmem]
    change ¬ (200001 ≤ 200000 ∧ _)
    omega
  · intro fuel
    by_contra hends
    obtain ⟨found, hfound⟩ := Option.ne_none_iff_exists'.mp hends
    have hreach := (choosePosition_ends_iff bounds_cluster).mp
      ⟨fuel, found, hfound⟩
    rcases hreach with ⟨pos, hlow, hhigh, hfree⟩ | ⟨hcnt, -⟩
    · rw [hmem] at hfree
      rw [UInt32.lt_iff_toNat_lt] at hlow
      rw [UInt32.le_iff_toNat_le] at hhigh
      change 200000 < pos.toNat at hlow
      change pos.toNat ≤ 299999 at hhigh
      omega
    · exact absurd hcnt (by decide)

end MessageBus.Positions
