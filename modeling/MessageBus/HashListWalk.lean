import MessageBus.HashListRuns

/-!
# Walking a bucket with a callback

`ProcessAll` of the hash list, whose callback may remove the entry it is
called for: the successor is read before the call, and the node of the entry
goes to the free list, which overwrites its `ipNextDataNode`.
-/

namespace MessageBus.HashList

open IndexChain

variable {Data : Type}

/-- What a callback does with the list when it is called for an entry; `none`
when it does not end. -/
abbrev CallBack (Data : Type) :=
  UInt64 → Data → Segment Data → Option (Segment Data)

/-- The loop of `ProcessAll`, with the entries the callback was called for. -/
def Segment.processFrom (callBack : CallBack Data) :
    ℕ → ℤ → Segment Data → Option (List (Σ _ : UInt64, Data) × Segment Data)
  | 0, _, _ => none
  | fuel + 1, ipData, segment =>
      if ipData = 0 then some ([], segment)
      else do
        let ipNextData := segment.ipNextDataNode ipData
        let entry : Σ _ : UInt64, Data :=
          ⟨segment.keyVal ipData, segment.data ipData⟩
        let next ← callBack entry.1 entry.2 segment
        let (entries, final) ← processFrom callBack fuel ipNextData next
        some (entry :: entries, final)

def Segment.processAll (segment : Segment Data) (fuel : ℕ) (iIndex : ℤ)
    (callBack : CallBack Data) :
    Option (List (Σ _ : UInt64, Data) × Segment Data) :=
  if 0 < segment.iDataNodeNum iIndex then
    segment.processFrom callBack fuel (segment.ipDataNodeList iIndex)
  else some ([], segment)

/-- A callback that removes the entries it is called for, if they are to go. -/
def removeIf (fuel : ℕ) (stale : UInt64 → Data → Bool) : CallBack Data :=
  fun key data segment =>
    if stale key data then
      (segment.remove fuel key).map fun (_, writes) => segment.perform writes
    else some segment

/-- The keys that such a callback removes. -/
def staleKeys (stale : UInt64 → Data → Bool)
    (entries : List (Σ _ : UInt64, Data)) : List UInt64 :=
  (entries.filter fun entry => stale entry.1 entry.2).map Sigma.fst

theorem chainFrom_suffix {ι : Type} {next : ι → ι} {null first node : ι}
    {before after : List ι}
    (hchain : ChainFrom next null first (before ++ node :: after)) :
    ChainFrom next null node (node :: after) := by
  induction before generalizing first with
  | nil => exact ⟨rfl, hchain.2⟩
  | cons earlier before ih => exact ih hchain.2.2

section Walk

variable {segment : Segment Data} {indexNum dataNum fuel : ℕ}
  {map : BoundedMap UInt64 Data} {chains : ℕ → List ℤ} {free : List ℤ}
  {before after : List ℤ} {node : ℤ} {bucket : ℕ}

theorem keyVal_removeWrites :
    (segment.perform (Represents.removeWrites segment bucket before node)).keyVal =
        segment.keyVal ∧
      (segment.perform (Represents.removeWrites segment bucket before node)).data =
        segment.data :=
  Represents.entry_unlinkWrite segment bucket before node

/-- The callback on the entry of a node in the middle of its chain: the nodes
behind it stay as they are. -/
theorem removeIf_spec (stale : UInt64 → Data → Bool)
    (h : Represents segment indexNum dataNum map chains free)
    (hfuel : dataNum ≤ fuel) (hbucket : bucket < indexNum)
    (hchain : chains bucket = before ++ node :: after) :
    ∃ next chains' free' kept,
      removeIf fuel stale (segment.keyVal node) (segment.data node) segment =
        some next ∧
      Represents next indexNum dataNum
        (if stale (segment.keyVal node) (segment.data node) then
          map.erase (segment.keyVal node) else map) chains' free' ∧
      chains' bucket = kept ++ after ∧
      next.keyVal = segment.keyVal ∧ next.data = segment.data := by
  have hmem : node ∈ chains bucket := by simp [hchain]
  have hhash := h.hashVal_keyVal hbucket hmem
  unfold removeIf
  split_ifs with hstale
  · have hchain' : chains (hashVal indexNum (segment.keyVal node)) =
        before ++ node :: after := by
      rw [hhash, hchain]
    have habsent : ∀ earlier ∈ before,
        segment.keyVal earlier ≠ segment.keyVal node := by
      intro earlier hearlier hsame
      have hnodup := h.nodup_chain hbucket
      have hother : earlier ∈ chains bucket := by simp [hchain, hearlier]
      have heq := h.eq_of_keyVal_eq hbucket hbucket hother hmem hsame
      rw [hchain] at hnodup
      exact (List.nodup_append.mp hnodup).2.2 earlier hearlier node
        List.mem_cons_self heq
    rw [h.remove_of_split hfuel hchain' rfl habsent]
    refine ⟨_, _, _, before, rfl, h.represents_remove hchain' rfl, ?_,
      keyVal_removeWrites⟩
    rw [hhash, Function.update_self]
  · exact ⟨segment, chains, free, before ++ [node], rfl, h, by simp [hchain],
      rfl, rfl⟩

/-- The walk from a node on meets the rest of the chain, whatever the callback
removes on the way. -/
theorem processFrom_spec (stale : UInt64 → Data → Bool)
    {todo : List ℤ} {first : ℤ} {steps : ℕ}
    (h : Represents segment indexNum dataNum map chains free)
    (hfuel : dataNum ≤ fuel) (hbucket : bucket < indexNum)
    (hchain : chains bucket = before ++ todo)
    (hfirst : ChainFrom segment.ipNextDataNode 0 first todo)
    (hsteps : todo.length < steps) :
    ∃ final chains' free',
      segment.processFrom (removeIf fuel stale) steps first =
        some (todo.map fun node => ⟨segment.keyVal node, segment.data node⟩,
          final) ∧
      Represents final indexNum dataNum
        ((staleKeys stale (todo.map fun node =>
          ⟨segment.keyVal node, segment.data node⟩)).foldl BoundedMap.erase
            map) chains' free' := by
  induction todo generalizing segment map chains free before first steps with
  | nil =>
      obtain ⟨steps, rfl⟩ :=
        Nat.exists_eq_succ_of_ne_zero (by omega : steps ≠ 0)
      have hnull : first = 0 := hfirst
      refine ⟨segment, chains, free, ?_, h⟩
      rw [Segment.processFrom, if_pos hnull]
      rfl
  | cons node todo ih =>
      obtain ⟨steps, rfl⟩ :=
        Nat.exists_eq_succ_of_ne_zero (by omega : steps ≠ 0)
      obtain ⟨rfl, hnode, hrest⟩ := hfirst
      obtain ⟨next, chains', free', kept, hcall, hnext, hchain', hkeys, hdata⟩ :=
        removeIf_spec stale h hfuel hbucket hchain
      -- the successor read before the call is still where the chain goes on
      have hafter : ChainFrom next.ipNextDataNode 0
          (segment.ipNextDataNode first) todo := by
        cases todo with
        | nil => exact hrest
        | cons later todo =>
            have hlist := hnext.bucket_chain hbucket
            rw [hchain'] at hlist
            rw [hrest.1]
            exact chainFrom_suffix hlist
      obtain ⟨final, chains'', free'', hwalk, hfinal⟩ :=
        ih hnext hchain' hafter (by simpa using hsteps)
      rw [hkeys, hdata] at hwalk hfinal
      refine ⟨final, chains'', free'', ?_, ?_⟩
      · rw [Segment.processFrom, if_neg hnode]
        simp only [hcall, Option.bind_eq_bind, Option.bind_some, hwalk]
        rfl
      · have hstale : staleKeys stale ((first :: todo).map fun node =>
            ⟨segment.keyVal node, segment.data node⟩) =
            (if stale (segment.keyVal first) (segment.data first) then
              [segment.keyVal first] else []) ++
              staleKeys stale (todo.map fun node =>
                ⟨segment.keyVal node, segment.data node⟩) := by
          rw [staleKeys, List.map_cons, List.filter_cons]
          split_ifs <;> rfl
        rw [hstale, List.foldl_append]
        split_ifs at hfinal ⊢ <;> exact hfinal

/-- `ProcessAll` calls the callback once for each entry of the bucket, in the
order of the map, and leaves the map without those it removed. -/
theorem processAll_spec (stale : UInt64 → Data → Bool)
    (h : Represents segment indexNum dataNum map chains free)
    (hfuel : dataNum ≤ fuel) (hbucket : bucket < indexNum) :
    ∃ final,
      segment.processAll fuel bucket (removeIf fuel stale) =
        some (map.store.entries.filter fun entry =>
          hashVal indexNum entry.1 = bucket, final) ∧
      Valid final indexNum dataNum
        ((staleKeys stale (map.store.entries.filter fun entry =>
          hashVal indexNum entry.1 = bucket)).foldl BoundedMap.erase map) := by
  have hentries := h.entries_eq bucket hbucket
  have hnum := h.counted.bucket_num bucket (by rw [h.toNat_index]; exact hbucket)
  rw [← hentries, Segment.processAll, hnum]
  split_ifs with hsome
  · obtain ⟨final, chains', free', hwalk, hfinal⟩ :=
      processFrom_spec stale h hfuel hbucket (List.nil_append _).symm
        (h.bucket_chain hbucket) ((h.length_chain_lt hbucket).trans_le hfuel)
    exact ⟨final, hwalk, chains', free', hfinal⟩
  · have hnil : chains bucket = [] := by
      apply List.eq_nil_of_length_eq_zero
      omega
    rw [hnil]
    exact ⟨segment, rfl, chains, free, h⟩

end Walk

end MessageBus.HashList
