import MessageBus.BusModel
import MessageBus.Transition

/-!
# The tables of the bus

What `CBus::Init` makes of the ini file.  The servers are listed cluster by
cluster; every process of the bus reads the same list, so that the tables of two
clusters differ only in the queues that each of them opens.
-/

namespace MessageBus.Bus

open ShmQueue
open Send

/-- The servers of the ini file with their clusters, in the order of the
file. -/
def Ini.servers (ini : Ini) : List (UInt32 × UInt32) :=
  ini.clusterList.flatMap fun cluster =>
    cluster.2.map fun serverID => (cluster.1, serverID)

namespace CBus

/-- The tables after some clusters and some servers have been entered. -/
structure Tables (ini : Ini) (attach : UInt32 → Option CShmQueue)
    (clusterID : UInt32) (clusters : List UInt32)
    (entries : List (UInt32 × UInt32)) (bus : CBus) : Prop where
  own : bus.clusterID = clusterID
  connPosCnt_eq : bus.connPosCnt = 0
  clusterPosCnt_eq : bus.clusterPosCnt = 0
  posConnMap_eq : bus.posConnMap = fun _ => none
  keys : (bus.mapClusterInfo.map ClusterInfo.clusterID).Perm clusters
  keys_nodup : (bus.mapClusterInfo.map ClusterInfo.clusterID).Nodup
  unlinked : ∀ info ∈ bus.mapClusterInfo,
    info.socketID = -1 ∧ info.connPos = 0
  servers_nodup : (entries.map Prod.snd).Nodup
  known : ∀ entry ∈ entries, entry.1 ∈ clusters
  attached : ∀ entry ∈ entries, entry.1 = clusterID →
    (attach entry.2).isSome
  absent : ∀ serverID, serverID ∉ entries.map Prod.snd →
    bus.mapSvrInfo serverID = none
  present : ∀ entry ∈ entries,
    bus.mapSvrInfo entry.2 =
      some ⟨entry.1, (ini.server entry.2).groupID, 0,
        if entry.1 = clusterID then attach entry.2 else none⟩
  groups : ∀ groupID, (bus.mapGrpInfo groupID).getD [] =
    (entries.map Prod.snd).filter fun serverID =>
      (ini.server serverID).groupID = groupID
  groups_ne : ∀ groupID, bus.mapGrpInfo groupID ≠ some []

section Init

variable {ini : Ini} {attach : UInt32 → Option CShmQueue}
  {own clusterID serverID : UInt32} {clusters : List UInt32}
  {entries : List (UInt32 × UInt32)} {bus after : CBus}

theorem pushGroup_getD (mapGrpInfo : UInt32 → Option (List UInt32))
    (groupID serverID other : UInt32) :
    (pushGroup mapGrpInfo groupID serverID other).getD [] =
      (mapGrpInfo other).getD [] ++
        if groupID = other then [serverID] else [] := by
  unfold pushGroup
  by_cases heq : groupID = other
  · subst heq
    cases mapGrpInfo groupID with
    | none => simp
    | some members => simp
  · cases mapGrpInfo groupID with
    | none => simp [Function.update_of_ne (Ne.symm heq), heq]
    | some members => simp [Function.update_of_ne (Ne.symm heq), heq]

theorem pushGroup_ne {mapGrpInfo : UInt32 → Option (List UInt32)}
    (h : ∀ groupID, mapGrpInfo groupID ≠ some [])
    (groupID serverID other : UInt32) :
    pushGroup mapGrpInfo groupID serverID other ≠ some [] := by
  unfold pushGroup
  by_cases heq : other = groupID
  · subst heq
    cases mapGrpInfo other with
    | none => simp
    | some members => simp
  · cases mapGrpInfo groupID with
    | none =>
        dsimp only
        rw [Function.update_of_ne heq]
        exact h other
    | some members =>
        dsimp only
        rw [Function.update_of_ne heq]
        exact h other

/-- What `Init` has made sure of when it enters a server. -/
theorem initServer_cases
    (hinit : initServer ini attach clusterID bus serverID = some after) :
    bus.mapSvrInfo serverID = none ∧
      (clusterID = bus.clusterID → (attach serverID).isSome) ∧
      after = { bus with
        mapGrpInfo := pushGroup bus.mapGrpInfo
          (ini.server serverID).groupID serverID
        mapSvrInfo := Function.update bus.mapSvrInfo serverID
          (some ⟨clusterID, (ini.server serverID).groupID, 0,
            if clusterID = bus.clusterID then attach serverID else none⟩)
        } := by
  unfold initServer at hinit
  dsimp only at hinit
  by_cases hown : clusterID = bus.clusterID
  · rw [if_pos hown] at hinit
    split_ifs at hinit
    cases hattach : attach serverID with
    | none => simp [hattach] at hinit
    | some queue =>
        cases hserver : bus.mapSvrInfo serverID with
        | some _ => simp [hattach, hserver] at hinit
        | none =>
            rw [hattach, hserver] at hinit
            refine ⟨rfl, fun _ => rfl, ?_⟩
            rw [if_pos hown]
            exact (Option.some.inj hinit).symm
  · rw [if_neg hown] at hinit
    split_ifs at hinit
    cases hserver : bus.mapSvrInfo serverID with
    | some _ => simp [hserver] at hinit
    | none =>
        rw [hserver] at hinit
        refine ⟨rfl, fun h => absurd h hown, ?_⟩
        rw [if_neg hown]
        exact (Option.some.inj hinit).symm

theorem Tables.initServer
    (h : Tables ini attach own clusters entries bus)
    (hcluster : clusterID ∈ clusters)
    (hinit : initServer ini attach clusterID bus serverID = some after) :
    Tables ini attach own clusters (entries ++ [(clusterID, serverID)])
      after := by
  obtain ⟨hnew, hattach, rfl⟩ := initServer_cases hinit
  rw [h.own] at hattach ⊢
  have hfresh : serverID ∉ entries.map Prod.snd := by
    intro hmem
    obtain ⟨entry, hentry, rfl⟩ := List.mem_map.mp hmem
    rw [h.present entry hentry] at hnew
    cases hnew
  refine ⟨rfl, h.connPosCnt_eq, h.clusterPosCnt_eq, h.posConnMap_eq, h.keys,
    h.keys_nodup, h.unlinked, ?_, ?_, ?_, ?_, ?_, ?_, ?_⟩
  · rw [List.map_append, List.nodup_append]
    refine ⟨h.servers_nodup, List.nodup_singleton _, ?_⟩
    intro known hknown other hother heq
    rw [List.map_singleton, List.mem_singleton] at hother
    rw [heq, hother] at hknown
    exact hfresh hknown
  · intro entry hentry
    obtain hentry | rfl := by simpa using hentry
    · exact h.known entry hentry
    · exact hcluster
  · intro entry hentry
    obtain hentry | rfl := by simpa using hentry
    · exact h.attached entry hentry
    · exact hattach
  · intro other hother
    rw [List.map_append, List.mem_append, not_or] at hother
    have hne : other ≠ serverID := by simpa using hother.2
    dsimp only
    rw [Function.update_of_ne hne]
    exact h.absent other hother.1
  · intro entry hentry
    obtain hold | rfl := by simpa using hentry
    · have hne : entry.2 ≠ serverID := by
        rintro rfl
        exact hfresh (List.mem_map_of_mem hold)
      dsimp only
      rw [Function.update_of_ne hne]
      exact h.present entry hold
    · exact Function.update_self ..
  · intro groupID
    rw [pushGroup_getD, h.groups, List.map_append, List.filter_append]
    congr 1
    simp [List.filter_cons]
  · exact pushGroup_ne h.groups_ne _ _

theorem mem_insertCluster {info other : ClusterInfo} {l : List ClusterInfo} :
    other ∈ insertCluster info l ↔ other = info ∨ other ∈ l := by
  induction l with
  | nil => simp [insertCluster]
  | cons head later ih =>
      rw [insertCluster]
      split_ifs
      · simp
      · rw [List.mem_cons, ih, List.mem_cons]
        tauto

theorem insertCluster_perm (info : ClusterInfo) (l : List ClusterInfo) :
    (insertCluster info l).Perm (info :: l) := by
  induction l with
  | nil => exact .refl _
  | cons head later ih =>
      rw [insertCluster]
      split_ifs
      · exact .refl _
      · exact (ih.cons head).trans (.swap ..)

theorem Tables.initCluster
    (h : Tables ini attach own clusters entries bus)
    {cluster : UInt32 × List UInt32}
    (hinit : initCluster ini attach bus cluster = some after) :
    Tables ini attach own (clusters ++ [cluster.1])
      (entries ++ cluster.2.map fun serverID => (cluster.1, serverID))
      after := by
  unfold CBus.initCluster at hinit
  split_ifs at hinit with hbad
  rw [not_or, Bool.not_eq_true, Option.isSome_eq_false_iff,
    Option.isNone_iff_eq_none] at hbad
  have hperm := (insertCluster_perm ⟨cluster.1, -1, 0⟩
    bus.mapClusterInfo).map ClusterInfo.clusterID
  rw [List.map_cons] at hperm
  have hfresh : cluster.1 ∉ bus.mapClusterInfo.map ClusterInfo.clusterID := by
    intro hmem
    obtain ⟨info, hinfo, heq⟩ := List.mem_map.mp hmem
    have hnone := List.find?_eq_none.mp hbad.2 info hinfo
    exact hnone (decide_eq_true heq)
  refine Transition.foldlM_invariant (fun past bus => Tables ini attach own
    (clusters ++ [cluster.1])
    (entries ++ past.map fun serverID => (cluster.1, serverID)) bus)
    ?_ ?_ hinit
  · rw [List.map_nil, List.append_nil]
    refine ⟨h.own, h.connPosCnt_eq, h.clusterPosCnt_eq, h.posConnMap_eq, ?_, ?_,
      ?_, h.servers_nodup, ?_, h.attached, h.absent, h.present, h.groups,
      h.groups_ne⟩
    · exact hperm.trans ((h.keys.cons _).trans
        (List.perm_append_singleton _ _).symm)
    · exact hperm.nodup_iff.mpr (List.nodup_cons.mpr ⟨hfresh, h.keys_nodup⟩)
    · intro info hinfo
      obtain rfl | hinfo := mem_insertCluster.mp hinfo
      · exact ⟨rfl, rfl⟩
      · exact h.unlinked info hinfo
    · intro entry hentry
      exact List.mem_append_left _ (h.known entry hentry)
  · intro past before next serverID hbefore hstep
    rw [List.map_append, ← List.append_assoc]
    exact hbefore.initServer (by simp) hstep

theorem init_tables (hinit : init ini attach own = some bus) :
    Tables ini attach own (ini.clusterList.map Prod.fst) ini.servers bus := by
  unfold init at hinit
  split_ifs at hinit
  refine Transition.foldlM_invariant (fun past bus => Tables ini attach own
    (past.map Prod.fst)
    (past.flatMap fun cluster =>
      cluster.2.map fun serverID => (cluster.1, serverID)) bus) ?_ ?_ hinit
  · refine ⟨rfl, rfl, rfl, rfl, .refl _, List.nodup_nil, ?_, List.nodup_nil,
      ?_, ?_, fun _ _ => rfl, ?_, fun _ => rfl, ?_⟩
    · rintro _ ⟨⟩
    · rintro _ ⟨⟩
    · rintro _ ⟨⟩
    · rintro _ ⟨⟩
    · rintro _ ⟨⟩
  · intro past before next cluster hbefore hstep
    rw [List.map_append, List.flatMap_append, List.flatMap_singleton]
    exact hbefore.initCluster hstep

end Init

end CBus

end MessageBus.Bus
