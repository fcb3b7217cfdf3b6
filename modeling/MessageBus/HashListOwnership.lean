import MessageBus.HashListAccesses

/-!
# What the operations of a hash list touch

An operation on a key stays inside the cells of one bucket and, if it inserts or
removes, of the free list.  This needs to be known of the pointers only: a
pointer found in these cells is null or leads to a data node among them.
-/

namespace MessageBus.HashList

open Shared IndexChain

variable {Field : Type} {FieldValue : Field → Type} {α : Type}

structure NodeOwned (owns : Cell Field → Prop) (ipData : ℤ) : Prop where
  keyVal : owns (.keyVal ipData)
  next : owns (.ipNextDataNode ipData)
  data : ∀ field, owns (.data ipData field)

def PointerOwned (owns : Cell Field → Prop) (ipData : ℤ) : Prop :=
  ipData = 0 ∨ NodeOwned owns ipData

structure BucketOwned (owns : Cell Field → Prop) (iHashVal : ℤ) : Prop where
  num : owns (.iDataNodeNum iHashVal)
  list : owns (.ipDataNodeList iHashVal)

structure HeadOwned (owns : Cell Field → Prop) : Prop where
  used : owns .iUsedDataNodeNum
  free : owns .ipFreeDataNodeList

/-- The cells that only `Init` writes. -/
def fixedCell : Cell Field → Prop
  | .iTotalDataNodeNum => True
  | .iIndexNodeNum => True
  | _ => False

def goodCell (indexNum : ℕ) (owns : Cell Field → Prop) :
    (cell : Cell Field) → cell.Value FieldValue → Prop
  | .ipFreeDataNodeList, ipData => PointerOwned owns ipData
  | .ipDataNodeList _, ipData => PointerOwned owns ipData
  | .ipNextDataNode _, ipData => PointerOwned owns ipData
  | .iIndexNodeNum, iIndexNodeNum => iIndexNodeNum = indexNum
  | _, _ => True

def cellPart (FieldValue : Field → Type) (indexNum : ℕ)
    (owns : Cell Field → Prop) : Part (Cell.Value FieldValue) where
  owns := owns
  fixed := fixedCell
  good := goodCell indexNum owns

section Confines

open CHashListNoLock Part

variable {indexNum : ℕ} {owns : Cell Field → Prop} {ipData : ℤ}
  {key : UInt64} {fuel : ℕ} {fields : List Field}
  {record : Record FieldValue}

theorem confines_hash :
    (cellPart FieldValue indexNum owns).Confines
      (fun iHashVal : ℤ => iHashVal = hashVal indexNum key)
      (hash key : SegmentCode FieldValue ℤ) := by
  rw [CHashListNoLock.hash, load_bind, confines_load]
  refine ⟨Or.inr trivial, fun iIndexNodeNum hnum => ?_⟩
  have hnum : iIndexNodeNum = (indexNum : ℤ) := hnum
  rw [Program.pure_eq, confines_done, hnum, Int.toNat_natCast]

theorem confines_search (hpointer : PointerOwned owns ipData) :
    (cellPart FieldValue indexNum owns).Confines (PointerOwned owns)
      (search key fuel ipData : SegmentCode FieldValue ℤ) := by
  induction fuel generalizing ipData with
  | zero => exact confines_spin
  | succ fuel ih =>
      rw [search]
      rcases hpointer with hnull | hnode
      · rw [if_pos hnull]
        exact Or.inl hnull
      · split_ifs
        · exact Or.inr hnode
        · rw [load_bind, confines_load]
          refine ⟨Or.inl hnode.keyVal, fun keyVal _ => ?_⟩
          split_ifs
          · rw [load_bind, confines_load]
            exact ⟨Or.inl hnode.next, fun ipNextData hnext => ih hnext⟩
          · exact Or.inr hnode

theorem confines_searchLast
    {ipLastData : ℤ} (hlast : PointerOwned owns ipLastData)
    (hpointer : PointerOwned owns ipData) :
    (cellPart FieldValue indexNum owns).Confines
      (fun found => PointerOwned owns found.1 ∧ PointerOwned owns found.2)
      (searchLast key fuel ipLastData ipData :
        SegmentCode FieldValue (ℤ × ℤ)) := by
  induction fuel generalizing ipLastData ipData with
  | zero => exact confines_spin
  | succ fuel ih =>
      rw [searchLast]
      rcases hpointer with hnull | hnode
      · rw [if_pos hnull]
        exact ⟨hlast, Or.inl hnull⟩
      · split_ifs
        · exact ⟨hlast, Or.inr hnode⟩
        · rw [load_bind, confines_load]
          refine ⟨Or.inl hnode.keyVal, fun keyVal _ => ?_⟩
          split_ifs
          · rw [load_bind, confines_load]
            exact ⟨Or.inl hnode.next,
              fun ipNextData hnext => ih (Or.inr hnode) hnext⟩
          · exact ⟨hlast, Or.inr hnode⟩

theorem confines_copyIn (hnode : NodeOwned owns ipData) :
    (cellPart FieldValue indexNum owns).Confines (fun _ => True)
      (copyIn ipData record fields) := by
  induction fields with
  | nil => exact trivial
  | cons field fields ih =>
      rw [copyIn, store_bind, confines_store]
      exact ⟨hnode.data field, trivial, ih⟩

theorem confines_copyOut [DecidableEq Field] (hnode : NodeOwned owns ipData) :
    (cellPart FieldValue indexNum owns).Confines (fun _ => True)
      (copyOut ipData fields record) := by
  induction fields generalizing record with
  | nil => exact trivial
  | cons field fields ih =>
      rw [copyOut, load_bind, confines_load]
      exact ⟨Or.inl (hnode.data field), fun value _ => ih⟩

theorem confines_getFreeNode (hhead : HeadOwned owns) :
    (cellPart FieldValue indexNum owns).Confines
      (fun iFreeNode => 0 < iFreeNode → NodeOwned owns iFreeNode)
      (getFreeNode : SegmentCode FieldValue ℤ) := by
  simp only [getFreeNode, load_bind, confines_load]
  refine ⟨Or.inr trivial, fun total _ => ⟨Or.inl hhead.used, fun used _ =>
    ⟨Or.inl hhead.free, fun iFreeNode hfree => ?_⟩⟩⟩
  have hfree : PointerOwned owns iFreeNode := hfree
  split_ifs with hfull
  · intro hpos
    simp [eHashListNoSpace] at hpos
  · have hnode : NodeOwned owns iFreeNode :=
      hfree.resolve_left (not_le.mp (not_or.mp hfull).2).ne'
    simp only [store_bind, confines_load, confines_store]
    exact ⟨Or.inl hhead.used, fun _ _ => ⟨hhead.used, trivial,
      Or.inl hnode.next, fun next hnext => ⟨hhead.free, hnext,
        fun _ => hnode⟩⟩⟩

theorem confines_recycleNode
    (hhead : HeadOwned owns) (hnode : NodeOwned owns ipData) :
    (cellPart FieldValue indexNum owns).Confines (fun _ => True)
      (recycleNode ipData : SegmentCode FieldValue ℤ) := by
  rw [recycleNode]
  split_ifs
  · exact trivial
  · rw [load_bind, confines_load]
    refine ⟨Or.inr trivial, fun total _ => ?_⟩
    split_ifs
    · exact trivial
    · simp only [load_bind, store_bind, confines_load, confines_store]
      exact ⟨Or.inl hhead.used, fun _ _ => ⟨hhead.used, trivial,
        Or.inl hhead.free, fun _ hfree => ⟨hnode.next, hfree,
          hhead.free, Or.inr hnode, trivial⟩⟩⟩

/-- An operation that looks its bucket up and goes on from the first node. -/
theorem confines_bucket
    {code : ℤ → ℤ → SegmentCode FieldValue α} {post : α → Prop}
    (hbucket : BucketOwned owns (hashVal indexNum key))
    (hcode : ∀ ipData, PointerOwned owns ipData →
      (cellPart FieldValue indexNum owns).Confines post
        (code (hashVal indexNum key) ipData)) :
    (cellPart FieldValue indexNum owns).Confines post (do
      let iHashVal ← hash key
      let ipDataNodeList ← load (.ipDataNodeList iHashVal)
      code iHashVal ipDataNodeList) := by
  rw [confines_bind]
  apply confines_hash.mono
  rintro iHashVal rfl
  rw [load_bind, confines_load]
  exact ⟨Or.inl hbucket.list, hcode⟩

theorem confines_insert
    (hhead : HeadOwned owns)
    (hbucket : BucketOwned owns (hashVal indexNum key)) :
    (cellPart FieldValue indexNum owns).Confines (fun _ => True)
      (insert fuel fields key record) := by
  apply confines_bucket hbucket
  intro ipDataNodeList hlist
  rw [confines_bind]
  apply (confines_search hlist).mono
  intro ipData _
  split_ifs
  · exact trivial
  · rw [confines_bind]
    apply (confines_getFreeNode hhead).mono
    intro ipFreeNode hfree
    split_ifs with hpos
    · have hnode := hfree hpos
      simp only [load_bind, store_bind, confines_store, confines_load]
      refine ⟨hnode.keyVal, trivial, Or.inl hbucket.list, fun first hfirst =>
        ⟨hnode.next, hfirst, ?_⟩⟩
      rw [confines_bind]
      apply (confines_copyIn hnode).mono
      intro _ _
      simp only [confines_store, confines_load]
      exact ⟨hbucket.list, Or.inr hnode, Or.inl hbucket.num,
        fun _ _ => ⟨hbucket.num, trivial, trivial⟩⟩
    · exact trivial

theorem confines_update
    (hbucket : BucketOwned owns (hashVal indexNum key)) :
    (cellPart FieldValue indexNum owns).Confines (fun _ => True)
      (CHashListNoLock.update fuel fields key record) := by
  apply confines_bucket hbucket
  intro ipDataNodeList hlist
  rw [confines_bind]
  apply (confines_search hlist).mono
  intro ipData hpointer
  split_ifs with hpos
  · rw [confines_bind]
    exact (confines_copyIn (hpointer.resolve_left hpos.ne')).mono
      fun _ _ => trivial
  · exact trivial

theorem confines_remove
    (hhead : HeadOwned owns)
    (hbucket : BucketOwned owns (hashVal indexNum key)) :
    (cellPart FieldValue indexNum owns).Confines (fun _ => True)
      (remove fuel key : SegmentCode FieldValue ℤ) := by
  apply confines_bucket hbucket
  intro ipDataNodeList hlist
  rw [confines_bind]
  apply (confines_searchLast (Or.inl rfl) hlist).mono
  rintro ⟨ipLastData, ipData⟩ ⟨hlast, hpointer⟩
  dsimp only at hlast hpointer ⊢
  split_ifs with hpos hfirst
  · have hnode := hpointer.resolve_left hpos.ne'
    simp only [load_bind, store_bind, confines_store, confines_load]
    exact ⟨Or.inl hnode.next, fun next hnext => ⟨hbucket.list, hnext,
      Or.inl hbucket.num, fun _ _ => ⟨hbucket.num, trivial,
        confines_recycleNode hhead hnode⟩⟩⟩
  · have hnode := hpointer.resolve_left hpos.ne'
    simp only [load_bind, store_bind, confines_store, confines_load]
    exact ⟨Or.inl hnode.next, fun next hnext =>
      ⟨(hlast.resolve_left hfirst).next, hnext,
        Or.inl hbucket.num, fun _ _ => ⟨hbucket.num, trivial,
          confines_recycleNode hhead hnode⟩⟩⟩
  · exact trivial

theorem confines_get
    (hbucket : BucketOwned owns (hashVal indexNum key)) :
    (cellPart FieldValue indexNum owns).Confines (PointerOwned owns)
      (get fuel key : SegmentCode FieldValue ℤ) := by
  apply confines_bucket hbucket
  intro ipDataNodeList hlist
  rw [confines_bind]
  apply (confines_search hlist).mono
  intro ipData hpointer
  rw [Program.pure_eq, confines_done]
  split_ifs
  · exact hpointer
  · exact Or.inl rfl

theorem confines_getData [DecidableEq Field]
    (hbucket : BucketOwned owns (hashVal indexNum key)) :
    (cellPart FieldValue indexNum owns).Confines (fun _ => True)
      (getData fuel fields key record) := by
  apply confines_bucket hbucket
  intro ipDataNodeList hlist
  rw [confines_bind]
  apply (confines_search hlist).mono
  intro ipData hpointer
  split_ifs with hpos
  · rw [confines_bind]
    exact (confines_copyOut (hpointer.resolve_left hpos.ne')).mono
      fun _ _ => trivial
  · exact trivial

section ProcessAll

variable {callBackFunc : UInt64 → ℤ → α → SegmentCode FieldValue α}
  (hcall : ∀ key node privateData, NodeOwned owns node →
    (cellPart FieldValue indexNum owns).Confines (fun _ => True)
      (callBackFunc key node privateData))

include hcall

theorem confines_processChain
    (hpointer : PointerOwned owns ipData) (privateData : α) :
    (cellPart FieldValue indexNum owns).Confines (fun _ => True)
      (processChain callBackFunc fuel ipData privateData) := by
  induction fuel generalizing ipData privateData with
  | zero => exact confines_spin
  | succ fuel ih =>
      rw [processChain]
      rcases hpointer with hnull | hnode
      · rw [if_pos hnull]
        exact trivial
      · split_ifs
        · exact trivial
        · simp only [load_bind, confines_load]
          refine ⟨Or.inl hnode.next, fun next hnext =>
            ⟨Or.inl hnode.keyVal, fun keyVal _ => ?_⟩⟩
          rw [confines_bind]
          exact (hcall keyVal ipData privateData hnode).mono
            fun later _ => ih hnext later

theorem confines_processAll
    {iIndex : ℤ} (hbucket : BucketOwned owns iIndex) (privateData : α) :
    (cellPart FieldValue indexNum owns).Confines (fun _ => True)
      (processAll fuel iIndex callBackFunc privateData) := by
  rw [processAll, load_bind, confines_load]
  refine ⟨Or.inl hbucket.num, fun num _ => ?_⟩
  split_ifs
  · rw [load_bind, confines_load]
    exact ⟨Or.inl hbucket.list,
      fun first hfirst => confines_processChain hcall hfirst privateData⟩
  · exact trivial

end ProcessAll

end Confines

/-! ## The regions of a segment -/

/-- The chain of a bucket, the free list, and what belongs to neither. -/
inductive Region where
  | free
  | bucket (iHashVal : ℕ)
  | outside

def successor (memory : Cells FieldValue) (ipData : ℤ) : ℤ :=
  memory (.ipNextDataNode ipData)

open Classical in
noncomputable def nodeRegion (indexNum : ℕ) (memory : Cells FieldValue)
    (ipData : ℤ) : Region :=
  if hbucket : ∃ iHashVal : ℕ, iHashVal < indexNum ∧
      Leads (successor memory) 0 (memory (.ipDataNodeList iHashVal)) ipData then
    .bucket hbucket.choose
  else if Leads (successor memory) 0 (memory .ipFreeDataNodeList) ipData then
    .free
  else .outside

noncomputable def cellRegion (indexNum : ℕ) (memory : Cells FieldValue) :
    Cell Field → Region
  | .iTotalDataNodeNum => .outside
  | .iUsedDataNodeNum => .free
  | .iIndexNodeNum => .outside
  | .ipFreeDataNodeList => .free
  | .iDataNodeNum iHashVal =>
      if 0 ≤ iHashVal ∧ iHashVal < indexNum then .bucket iHashVal.toNat
      else .outside
  | .ipDataNodeList iHashVal =>
      if 0 ≤ iHashVal ∧ iHashVal < indexNum then .bucket iHashVal.toNat
      else .outside
  | .keyVal ipData => nodeRegion indexNum memory ipData
  | .ipNextDataNode ipData => nodeRegion indexNum memory ipData
  | .data ipData _ => nodeRegion indexNum memory ipData

section Regions

variable {Data : Type} {decode : Record FieldValue → Data}
  {memory after : Cells FieldValue} {indexNum dataNum : ℕ}
  {map map' : BoundedMap UInt64 Data} {chains chains' : ℕ → List ℤ}
  {free free' : List ℤ} {ipData : ℤ} {held : Region → Prop}

theorem leads_bucket_iff
    (h : Represents (view decode memory) indexNum dataNum map chains free)
    {iHashVal : ℕ} (hbucket : iHashVal < indexNum) :
    Leads (successor memory) 0 (memory (.ipDataNodeList iHashVal)) ipData ↔
      ipData ∈ chains iHashVal :=
  (h.bucket_chain hbucket).leads_iff

theorem leads_free_iff
    (h : Represents (view decode memory) indexNum dataNum map chains free) :
    Leads (successor memory) 0 (memory .ipFreeDataNodeList) ipData ↔
      ipData ∈ free :=
  h.linked.free_chain.leads_iff

theorem nodeRegion_of_mem
    (h : Represents (view decode memory) indexNum dataNum map chains free)
    {iHashVal : ℕ} (hbucket : iHashVal < indexNum)
    (hmem : ipData ∈ chains iHashVal) :
    nodeRegion indexNum memory ipData = .bucket iHashVal := by
  have hexists : ∃ iHashVal : ℕ, iHashVal < indexNum ∧
      Leads (successor memory) 0 (memory (.ipDataNodeList iHashVal))
        ipData :=
    ⟨iHashVal, hbucket, (leads_bucket_iff h hbucket).mpr hmem⟩
  rw [nodeRegion, dif_pos hexists]
  congr 1
  have hchosen := hexists.choose_spec
  by_contra hne
  exact h.notMem_other_chain hbucket hchosen.1 hne hmem
    ((leads_bucket_iff h hchosen.1).mp hchosen.2)

theorem nodeRegion_of_mem_free
    (h : Represents (view decode memory) indexNum dataNum map chains free)
    (hmem : ipData ∈ free) : nodeRegion indexNum memory ipData = .free := by
  have hnone : ¬ ∃ iHashVal : ℕ, iHashVal < indexNum ∧
      Leads (successor memory) 0 (memory (.ipDataNodeList iHashVal))
        ipData := by
    rintro ⟨iHashVal, hbucket, hleads⟩
    exact h.notMem_chain_of_mem_free hbucket hmem
      ((leads_bucket_iff h hbucket).mp hleads)
  rw [nodeRegion, dif_neg hnone, if_pos ((leads_free_iff h).mpr hmem)]

theorem nodeRegion_of_notMem
    (h : Represents (view decode memory) indexNum dataNum map chains free)
    (hmem : ipData ∉ nodeIndices dataNum) :
    nodeRegion indexNum memory ipData = .outside := by
  have hnone : ¬ ∃ iHashVal : ℕ, iHashVal < indexNum ∧
      Leads (successor memory) 0 (memory (.ipDataNodeList iHashVal))
        ipData := by
    rintro ⟨iHashVal, hbucket, hleads⟩
    exact hmem (mem_nodeIndices.mpr
      (h.bounds_of_mem hbucket ((leads_bucket_iff h hbucket).mp hleads)))
  have hfree : ¬ Leads (successor memory) 0 (memory .ipFreeDataNodeList)
      ipData := by
    intro hleads
    exact hmem (mem_nodeIndices.mpr
      (h.bounds_of_mem_free ((leads_free_iff h).mp hleads)))
  rw [nodeRegion, dif_neg hnone, if_neg hfree]

/-- Every data node is in one of the lists. -/
theorem nodeRegion_cases
    (h : Represents (view decode memory) indexNum dataNum map chains free)
    (ipData : ℤ) :
    (∃ iHashVal < indexNum, ipData ∈ chains iHashVal ∧
        nodeRegion indexNum memory ipData = .bucket iHashVal) ∨
      (ipData ∈ free ∧ nodeRegion indexNum memory ipData = .free) ∨
      (ipData ∉ nodeIndices dataNum ∧
        nodeRegion indexNum memory ipData = .outside) := by
  by_cases hmem : ipData ∈ nodeIndices dataNum
  · rw [← h.partition.mem_iff, List.mem_append, List.mem_flatMap] at hmem
    rcases hmem with hfree | ⟨iHashVal, hbucket, hchain⟩
    · exact Or.inr (Or.inl ⟨hfree, nodeRegion_of_mem_free h hfree⟩)
    · have hbucket := List.mem_range.mp hbucket
      exact Or.inl ⟨iHashVal, hbucket, hchain,
        nodeRegion_of_mem h hbucket hchain⟩
  · exact Or.inr (Or.inr ⟨hmem, nodeRegion_of_notMem h hmem⟩)

theorem nodeOwned_of_held
    (hheld : held (nodeRegion indexNum memory ipData)) :
    NodeOwned (fun cell => held (cellRegion indexNum memory cell)) ipData :=
  ⟨hheld, hheld, fun _ => hheld⟩

/-- A pointer into a list is null or leads to a node of the region. -/
theorem pointerOwned_of_mem
    {region : Region} {nodes : List ℤ} (hheld : held region)
    (hnodes : ∀ node ∈ nodes, nodeRegion indexNum memory node = region)
    (hpointer : ipData = 0 ∨ ipData ∈ nodes) :
    PointerOwned (fun cell => held (cellRegion indexNum memory cell))
      ipData := by
  rcases hpointer with hnull | hmem
  · exact Or.inl hnull
  · right
    apply nodeOwned_of_held
    rw [hnodes ipData hmem]
    exact hheld

theorem closed_of_represents
    (held : Region → Prop)
    (h : Represents (view decode memory) indexNum dataNum map chains free)
    (houtside : ¬ held .outside) :
    (cellPart FieldValue indexNum
      fun cell => held (cellRegion indexNum memory cell)).Closed memory := by
  have hfree (node : ℤ) (hnode : node ∈ free) :
      nodeRegion indexNum memory node = .free := nodeRegion_of_mem_free h hnode
  have hbucket (iHashVal : ℕ) (hlt : iHashVal < indexNum) (node : ℤ)
      (hnode : node ∈ chains iHashVal) :
      nodeRegion indexNum memory node = .bucket iHashVal :=
    nodeRegion_of_mem h hlt hnode
  intro cell hcell
  cases cell with
  | iTotalDataNodeNum => trivial
  | iUsedDataNodeNum => trivial
  | iIndexNodeNum => exact h.index_eq
  | iDataNodeNum iHashVal => trivial
  | keyVal node => trivial
  | data node field => trivial
  | ipFreeDataNodeList =>
      exact pointerOwned_of_mem (hcell.resolve_right id) hfree
        h.linked.free_chain.first_eq_or_mem
  | ipDataNodeList iHashVal =>
      have hheld : held (if 0 ≤ iHashVal ∧ iHashVal < indexNum then
          .bucket iHashVal.toNat else .outside) := hcell.resolve_right id
      split_ifs at hheld with hrange
      · obtain ⟨bucket, rfl⟩ := Int.eq_ofNat_of_zero_le hrange.1
        have hlt : bucket < indexNum := by omega
        exact pointerOwned_of_mem hheld (hbucket bucket hlt)
          (h.bucket_chain hlt).first_eq_or_mem
      · exact (houtside hheld).elim
  | ipNextDataNode node =>
      have hheld : held (nodeRegion indexNum memory node) :=
        hcell.resolve_right id
      rcases nodeRegion_cases h node with
        ⟨bucket, hlt, hmem, hregion⟩ | ⟨hmem, hregion⟩ | ⟨-, hregion⟩
      · rw [hregion] at hheld
        exact pointerOwned_of_mem hheld (hbucket bucket hlt)
          ((h.bucket_chain hlt).next_eq_or_mem hmem)
      · rw [hregion] at hheld
        exact pointerOwned_of_mem hheld hfree
          (h.linked.free_chain.next_eq_or_mem hmem)
      · rw [hregion] at hheld
        exact (houtside hheld).elim

/-! ## Regions after a change -/

section Moves

variable
  (h : Represents (view decode memory) indexNum dataNum map chains free)
  (hafter : Represents (view decode after) indexNum dataNum map' chains' free')
  (hagree : ∀ cell, ¬ held (cellRegion indexNum memory cell) →
    after cell = memory cell)

include h hafter hagree

theorem chain_eq_of_not_held
    {iHashVal : ℕ} (hbucket : iHashVal < indexNum)
    (hheld : ¬ held (.bucket iHashVal)) :
    chains' iHashVal = chains iHashVal := by
  have hrange : (0 : ℤ) ≤ iHashVal ∧ (iHashVal : ℤ) < indexNum := by omega
  have hlist : after (.ipDataNodeList iHashVal) =
      memory (.ipDataNodeList iHashVal) := by
    apply hagree
    rw [cellRegion, if_pos hrange]
    exact hheld
  have hnext (node : ℤ) (hnode : node ∈ chains iHashVal) :
      successor after node = successor memory node := by
    apply hagree
    rw [cellRegion, nodeRegion_of_mem h hbucket hnode]
    exact hheld
  have hchain : ChainFrom (successor after) 0
      (after (.ipDataNodeList iHashVal)) (chains iHashVal) := by
    rw [hlist]
    exact (h.bucket_chain hbucket).congr hnext
  exact ChainFrom.unique (hafter.bucket_chain hbucket) hchain

theorem free_eq_of_not_held (hheld : ¬ held .free) : free' = free := by
  have hlist : after .ipFreeDataNodeList = memory .ipFreeDataNodeList :=
    hagree .ipFreeDataNodeList hheld
  have hnext (node : ℤ) (hnode : node ∈ free) :
      successor after node = successor memory node := by
    apply hagree
    rw [cellRegion, nodeRegion_of_mem_free h hnode]
    exact hheld
  have hchain : ChainFrom (successor after) 0 (after .ipFreeDataNodeList)
      free := by
    rw [hlist]
    exact h.linked.free_chain.congr hnext
  exact ChainFrom.unique hafter.linked.free_chain hchain

theorem nodeRegion_moves (ipData : ℤ) :
    nodeRegion indexNum after ipData = nodeRegion indexNum memory ipData ∨
      held (nodeRegion indexNum after ipData) ∧
        held (nodeRegion indexNum memory ipData) := by
  by_cases hnew : held (nodeRegion indexNum after ipData)
  · by_cases hold : held (nodeRegion indexNum memory ipData)
    · exact Or.inr ⟨hnew, hold⟩
    · -- the old list is not held, so the node is still in it
      left
      rcases nodeRegion_cases h ipData with
        ⟨bucket, hlt, hmem, hregion⟩ | ⟨hmem, hregion⟩ | ⟨hmem, hregion⟩
      · rw [hregion] at hold ⊢
        apply nodeRegion_of_mem hafter hlt
        rwa [chain_eq_of_not_held h hafter hagree hlt hold]
      · rw [hregion] at hold ⊢
        apply nodeRegion_of_mem_free hafter
        rwa [free_eq_of_not_held h hafter hagree hold]
      · rw [hregion]
        exact nodeRegion_of_notMem hafter hmem
  · -- the new list is not held, so the node was in it before
    left
    rcases nodeRegion_cases hafter ipData with
      ⟨bucket, hlt, hmem, hregion⟩ | ⟨hmem, hregion⟩ | ⟨hmem, hregion⟩
    · rw [hregion] at hnew ⊢
      symm
      apply nodeRegion_of_mem h hlt
      rwa [← chain_eq_of_not_held h hafter hagree hlt hnew]
    · rw [hregion] at hnew ⊢
      symm
      apply nodeRegion_of_mem_free h
      rwa [← free_eq_of_not_held h hafter hagree hnew]
    · rw [hregion]
      exact (nodeRegion_of_notMem h hmem).symm

variable (held) in
theorem cellRegion_moves (cell : Cell Field) :
    cellRegion indexNum after cell = cellRegion indexNum memory cell ∨
      held (cellRegion indexNum after cell) ∧
        held (cellRegion indexNum memory cell) := by
  cases cell with
  | keyVal ipData => exact nodeRegion_moves h hafter hagree ipData
  | ipNextDataNode ipData => exact nodeRegion_moves h hafter hagree ipData
  | data ipData field => exact nodeRegion_moves h hafter hagree ipData
  | iTotalDataNodeNum => exact Or.inl rfl
  | iUsedDataNodeNum => exact Or.inl rfl
  | iIndexNodeNum => exact Or.inl rfl
  | ipFreeDataNodeList => exact Or.inl rfl
  | iDataNodeNum iHashVal => exact Or.inl rfl
  | ipDataNodeList iHashVal => exact Or.inl rfl

end Moves

end Regions

end MessageBus.HashList
