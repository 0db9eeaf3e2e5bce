/-
What becomes of the peers that are added to the bootstrap cache.

As long as there is room for every peer, merging loses nobody, and neither does any part
of a flush when nothing comes in between.  What can be lost is lost between the parts:

  * A peer that is added after the memory was written, and before it is cleared.
  * A peer another process wrote to the file after it was read, and before it is
    overwritten.  A file that is there and cannot be read is overwritten as well.
  * With two flushes of one process, everything the one read before the other cleared
    the memory.
-/
import Autonomi.Bootstrap.CacheStore

namespace Autonomi

open Lib List

/-! ### Room for every peer -/

/-- Distinct peers, all among the known ones. -/
structure CacheData.Within (known : Finset PeerId) (data : CacheData) : Prop where
  nodup : data.peerIds.Nodup
  subset : ∀ p ∈ data.peerIds, p ∈ known

namespace CacheData

variable {known : Finset PeerId} {data other : CacheData} {maxAddrs maxPeers : Nat}

theorem Within.of_peerIds_eq (h : data.Within known) (heq : other.peerIds = data.peerIds) :
    other.Within known := ⟨heq ▸ h.nodup, heq ▸ h.subset⟩

theorem within_empty : Within known ⟨[]⟩ := ⟨nodup_nil, nofun⟩

theorem Within.take_eq (h : data.Within known) (hroom : known.card ≤ maxPeers) :
    data.peers.take maxPeers = data.peers := by
  apply take_of_length_le
  calc data.peers.length = data.peerIds.toFinset.card := by
        rw [toFinset_card_of_nodup h.nodup, peerIds, length_map]
    _ ≤ known.card := by
        apply Finset.card_le_card
        intro p hp
        exact h.subset p (mem_toFinset.mp hp)
    _ ≤ maxPeers := hroom

theorem map_fst_updatePeer (peerId : PeerId) (f : List Multiaddr → List Multiaddr)
    (peers : List CachedPeer) : (updatePeer peerId f peers).map Prod.fst = peers.map Prod.fst := by
  induction peers with
  | nil => rfl
  | cons peer rest ih =>
    unfold updatePeer
    by_cases heq : peer.1 = peerId
    · rw [if_pos heq]
      rfl
    · rw [if_neg heq, map_cons, map_cons, ih]

variable {p : PeerId}

section AddPeer

variable (h : data.Within known) (hroom : known.card ≤ maxPeers) {peerId : PeerId}
  (hknown : peerId ∈ known)

include h hknown

theorem Within.cons (hmem : peerId ∉ data.peerIds) (addrs : List Multiaddr) :
    Within known ⟨(peerId, addrs) :: data.peers⟩ := by
  refine ⟨nodup_cons.mpr ⟨hmem, h.nodup⟩, ?_⟩
  intro p hp
  rcases mem_cons.mp hp with rfl | hp
  · exact hknown
  · exact h.subset p hp

include hroom

theorem peerIds_addPeer (addrs : List Multiaddr) :
    (data.addPeer peerId addrs maxAddrs maxPeers).peerIds = data.peerIds.insert peerId := by
  unfold addPeer
  by_cases hmem : peerId ∈ data.peerIds
  · simp only [if_pos hmem]
    have hids := map_fst_updatePeer peerId (fun present => (addrs.foldl (fun l addr =>
      if addr ∈ l then l else addr :: l) present).take maxAddrs) data.peers
    have hwithin : Within known ⟨updatePeer peerId _ data.peers⟩ := h.of_peerIds_eq hids
    exact (congrArg _ (hwithin.take_eq hroom)).trans (hids.trans (insert_of_mem hmem).symm)
  · simp only [if_neg hmem]
    rw [insert_of_not_mem hmem]
    exact congrArg _ ((h.cons hknown hmem _).take_eq hroom)

theorem mem_addPeer {addrs : List Multiaddr} :
    p ∈ (data.addPeer peerId addrs maxAddrs maxPeers).peerIds ↔ p = peerId ∨ p ∈ data.peerIds := by
  rw [peerIds_addPeer h hroom hknown, mem_insert_iff]

theorem Within.addPeer (addrs : List Multiaddr) :
    (data.addPeer peerId addrs maxAddrs maxPeers).Within known := by
  refine ⟨peerIds_addPeer h hroom hknown addrs ▸ h.nodup.insert, ?_⟩
  intro p hp
  rcases (mem_addPeer h hroom hknown).mp hp with rfl | hp
  · exact hknown
  · exact h.subset p hp

end AddPeer

/-! ### Merging -/

theorem map_fst_entriesOf (table : Table PeerId (List Multiaddr)) :
    (entriesOf table).map Prod.fst = table.keys := by
  unfold entriesOf
  rw [map_map]
  rfl

theorem mem_peerMap : p ∈ data.peerMap ↔ p ∈ data.peerIds := by
  unfold peerMap peerIds
  rw [Table.mem_foldl_insert]
  simp [AList.notMem_empty]

theorem map_fst_mergePeers (peers : List CachedPeer) : ∀ table : Table PeerId (List Multiaddr),
    (mergePeers maxAddrs peers table).1.map Prod.fst = peers.map Prod.fst := by
  induction peers with
  | nil => exact fun _ => rfl
  | cons peer rest ih => exact fun table => congrArg (peer.1 :: ·) (ih (table.erase peer.1))

theorem mem_mergePeers_left (peers : List CachedPeer) :
    ∀ {table : Table PeerId (List Multiaddr)},
      p ∈ (mergePeers maxAddrs peers table).2 ↔ p ∈ table ∧ p ∉ peers.map Prod.fst := by
  induction peers with
  | nil => simp [mergePeers]
  | cons peer rest ih =>
    intro table
    rw [map_cons, mem_cons]
    exact (ih).trans (by rw [AList.mem_erase]; tauto)

theorem mem_leftPeers :
    p ∈ (data.leftPeers other maxAddrs).map Prod.fst ↔ p ∈ other.peerIds ∧ p ∉ data.peerIds := by
  unfold leftPeers
  rw [map_fst_entriesOf, ← AList.mem_keys, mem_mergePeers_left, mem_peerMap]
  rfl

section Sync

variable (h : data.Within known) (hother : other.Within known) (hroom : known.card ≤ maxPeers)
  {iterated : List CachedPeer} (hperm : iterated.Perm (data.leftPeers other maxAddrs))

include h hother hperm

theorem within_append : Within known ⟨data.peers ++ iterated⟩ := by
  have hleft : ∀ p, p ∈ iterated.map Prod.fst ↔ p ∈ other.peerIds ∧ p ∉ data.peerIds :=
    fun p => (hperm.map Prod.fst).mem_iff.trans mem_leftPeers
  constructor
  · rw [peerIds, map_append]
    refine nodup_append'.mpr ⟨h.nodup, ?_, fun p hp hp' => ((hleft p).mp hp').2 hp⟩
    rw [(hperm.map Prod.fst).nodup_iff, leftPeers, map_fst_entriesOf]
    exact AList.keys_nodup _
  · intro p hp
    rw [peerIds, map_append] at hp
    rcases mem_append.mp hp with hp | hp
    · exact h.subset p hp
    · exact hother.subset p ((hleft p).mp hp).1

include hroom

theorem peerIds_sync : (data.sync other maxAddrs maxPeers iterated).peerIds =
    peerIds ⟨data.peers ++ iterated⟩ := by
  have hids : (mergePeers maxAddrs data.peers other.peerMap).1.map Prod.fst =
      data.peers.map Prod.fst := map_fst_mergePeers data.peers other.peerMap
  have hours : Within known ⟨(mergePeers maxAddrs data.peers other.peerMap).1⟩ :=
    h.of_peerIds_eq hids
  have hlength : iterated.length ≤
      maxPeers - (mergePeers maxAddrs data.peers other.peerMap).1.length := by
    have htake := (take_eq_self_iff _).mp ((within_append h hother hperm).take_eq hroom)
    have hsame := congrArg List.length hids
    rw [length_map, length_map] at hsame
    rw [length_append] at htake
    omega
  unfold sync
  rw [hours.take_eq hroom]
  simp only [take_of_length_le hlength, peerIds, map_append]
  rw [hids]

theorem mem_sync : p ∈ (data.sync other maxAddrs maxPeers iterated).peerIds ↔
    p ∈ data.peerIds ∨ p ∈ other.peerIds := by
  rw [peerIds_sync h hother hroom hperm, peerIds, map_append, mem_append,
    (hperm.map Prod.fst).mem_iff, mem_leftPeers]
  by_cases hp : p ∈ data.peerIds
  · exact ⟨fun _ => .inl hp, fun _ => .inl hp⟩
  · exact or_congr_right (and_iff_left hp)

theorem Within.sync : (data.sync other maxAddrs maxPeers iterated).Within known :=
  (within_append h hother hperm).of_peerIds_eq (peerIds_sync h hother hroom hperm)

end Sync

end CacheData

/-! ### One part of a flush -/

def latestIds : Option CacheData → List PeerId
  | some data => data.peerIds
  | none => []

/-- There is room for all peers a flush comes across, and none is to be removed. -/
structure FlushView.Roomy (known : Finset PeerId) (v : FlushView) : Prop where
  memory : v.memory.Within known
  toRemove : v.toRemove = []
  latest : ∀ data, v.files.latest = some data → data.Within known
  older : ∀ table, v.files.older = some table → ∀ p ∈ table, p ∈ known

/-- What a flush may rely on where it stands. -/
def Relies (known : Finset PeerId) (v : FlushView) : FlushPoint → Prop
  | .check | .load => True
  | .loadOlder found => found = none
  | .merge found data => data.Within known ∧ latestIds found ⊆ data.peerIds
  | .drain found | .write found => latestIds found ⊆ v.memory.peerIds
  | .remove found queue => queue = [] ∧ latestIds found ⊆ v.memory.peerIds
  | .writeOlder written | .clear written => written.peerIds ⊆ latestIds v.files.latest

def FlushAction.fileRead : FlushAction → Bool
  | .load readable => readable
  | _ => true

/-- Nothing has come in between: a file that is there is read; the file is as it was read when it
is overwritten, and the memory as it was written when it is cleared. -/
def Undisturbed (v : FlushView) : FlushPoint → FlushAction → Prop
  | .load, action => v.files.latest ≠ none → action.fileRead = true
  | .write found, _ => v.files.latest = found
  | .clear written, _ => v.memory = written
  | .check, _ | .loadOlder _, _ | .merge _ _, _ | .drain _, _ | .remove _ _, _
  | .writeOlder _, _ => True

/-- No peer is lost by a part of a flush that does not fail. -/
structure Keeps (known : Finset PeerId) (v v' : FlushView) (next : FlushNext) : Prop where
  roomy : v'.Roomy known
  file : latestIds v.files.latest ⊆ latestIds v'.files.latest
  memory : ∀ p ∈ v.memory.peerIds, p ∈ v'.memory.peerIds ∨ p ∈ latestIds v'.files.latest
  relies : ∀ point, next = .goOn point → Relies known v' point

section Flush

variable {known : Finset PeerId} {v v' : FlushView}

variable {point : FlushPoint}

theorem Relies.mono (h : Relies known v point) (hmemory : v.memory.peerIds ⊆ v'.memory.peerIds)
    (hfile : latestIds v.files.latest ⊆ latestIds v'.files.latest) : Relies known v' point := by
  cases point with
  | check | load => trivial
  | loadOlder | merge => exact h
  | drain | write => exact List.Subset.trans h hmemory
  | remove => exact ⟨h.1, List.Subset.trans h.2 hmemory⟩
  | writeOlder | clear => exact List.Subset.trans h hfile

variable {next : FlushNext}

theorem keeps_of_look (hv : v.Roomy known)
    (hnext : ∀ point, next = .goOn point → Relies known v point) : Keeps known v v next :=
  ⟨hv, List.Subset.refl _, fun _ => .inl, hnext⟩

theorem relies_loadLatest (hv : v.Roomy known) {maxPeers : Nat} (hroom : known.card ≤ maxPeers)
    {readable : Bool} (hreadable : v.files.latest ≠ none → readable = true) :
    Relies known v (loadLatest maxPeers v.files.latest readable) := by
  cases hlatest : v.files.latest with
  | none => rfl
  | some data =>
    have hdata := hv.latest data hlatest
    obtain rfl := hreadable (by rw [hlatest]; nofun)
    show Relies known v (.merge (some data) ⟨data.peers.take maxPeers⟩)
    rw [hdata.take_eq hroom]
    exact ⟨hdata, List.Subset.refl _⟩

theorem relies_loadOlder (hv : v.Roomy known) {maxPeers : Nat} (hroom : known.card ≤ maxPeers)
    {iterated : Option (List CachedPeer)}
    (h : loadOlder maxPeers none v.files.older iterated = some point) : Relies known v point := by
  cases iterated with
  | none =>
    cases h
    exact nil_subset _
  | some iterated =>
    obtain ⟨table, htable, h⟩ := Option.bind_eq_some_iff.mp h
    obtain ⟨hperm, rfl⟩ := Option.ite_none_right_eq_some.mp h |>.imp_right Option.some.inj
    have hkeys : (iterated.map Prod.fst).Perm table.keys :=
      CacheData.map_fst_entriesOf table ▸ hperm.map Prod.fst
    have hwithin : CacheData.Within known ⟨iterated⟩ :=
      ⟨hkeys.nodup_iff.mpr (AList.keys_nodup table),
        fun p hp => hv.older table htable p (AList.mem_keys.mpr (hkeys.mem_iff.mp hp))⟩
    rw [hwithin.take_eq hroom]
    exact ⟨hwithin, nil_subset _⟩

variable {config : BootstrapConfig Multiaddr} (hroom : known.card ≤ config.maxCachedPeers)

include hroom in
theorem keeps_merge (hv : v.Roomy known) {found : Option CacheData} {data : CacheData}
    (hdata : Relies known v (.merge found data)) {iterated : List CachedPeer}
    (hperm : iterated.Perm (v.memory.leftPeers data config.maxAddrsPerCachedPeer)) :
    Keeps known v { v with
      memory := v.memory.sync data config.maxAddrsPerCachedPeer config.maxCachedPeers iterated }
      (.goOn (.drain found)) := by
  have hmem := fun p => CacheData.mem_sync (p := p) hv.memory hdata.1 hroom hperm
  refine ⟨⟨hv.memory.sync hdata.1 hroom hperm, hv.toRemove, hv.latest, hv.older⟩,
    List.Subset.refl _, fun p hp => .inl ((hmem p).mpr (.inl hp)), ?_⟩
  rintro _ ⟨⟩ p hp
  exact (hmem p).mpr (.inr (hdata.2 hp))

/-- Writing keeps what is in the file, as the memory has all that was found there. -/
theorem keeps_write (hv : v.Roomy known) (hfound : latestIds v.files.latest ⊆ v.memory.peerIds)
    (hnext : next = .goOn (.writeOlder v.memory) ∨ next = .goOn (.clear v.memory)) :
    Keeps known v { v with files := { v.files with latest := some v.memory } } next := by
  refine ⟨⟨hv.memory, hv.toRemove, ?_, hv.older⟩, hfound, fun _ => .inl, ?_⟩
  · rintro _ ⟨⟩
    exact hv.memory
  · rcases hnext with rfl | rfl
    all_goals
      rintro _ ⟨⟩
      exact List.Subset.refl _

include hroom in
/-- **Left alone, no part of a flush loses a peer.** -/
theorem keeps_flushStep (hv : v.Roomy known) {action : FlushAction} (hrelies : Relies known v point)
    (hundisturbed : Undisturbed v point action)
    (hstep : flushStep config v point action = some (v', next))
    (hok : ∀ result, next = .done result → result = .ok ()) : Keeps known v v' next := by
  unfold flushStep at hstep
  split at hstep
  case h_1 =>
    split at hstep
    · cases hstep
      exact keeps_of_look hv nofun
    · cases hstep
      exact keeps_of_look hv (by rintro _ ⟨⟩; trivial)
  case h_2 readable =>
    cases hstep
    apply keeps_of_look hv
    rintro _ ⟨⟩
    exact relies_loadLatest hv hroom hundisturbed
  case h_3 found iterated =>
    obtain ⟨point, hpoint, hnext⟩ := Option.map_eq_some_iff.mp hstep
    cases hnext
    apply keeps_of_look hv
    rintro _ ⟨⟩
    obtain rfl : found = none := hrelies
    exact relies_loadOlder hv hroom hpoint
  case h_4 found data iterated =>
    obtain ⟨hperm, hnext⟩ := Option.ite_none_right_eq_some.mp hstep
    cases hnext
    exact keeps_merge hroom hv hrelies hperm
  case h_5 found =>
    cases hstep
    refine ⟨⟨hv.memory, rfl, hv.latest, hv.older⟩, List.Subset.refl _, fun _ => .inl, ?_⟩
    rintro _ ⟨⟩
    exact ⟨hv.toRemove, hrelies⟩
  case h_6 found =>
    cases hstep
    exact keeps_of_look hv (by rintro _ ⟨⟩; exact hrelies.2)
  case h_7 => cases hrelies.1
  case h_8 found =>
    cases hstep
    obtain rfl : v.files.latest = found := hundisturbed
    exact keeps_write hv hrelies ((ite_eq_or_eq _ _ _).imp (congrArg _) (congrArg _))
  case h_9 =>
    cases hstep
    cases hok _ rfl
  case h_10 written =>
    cases hstep
    refine ⟨⟨hv.memory, hv.toRemove, hv.latest, ?_⟩, List.Subset.refl _, fun _ => .inl, ?_⟩
    · rintro _ ⟨⟩ p hp
      exact hv.memory.subset p (CacheData.mem_peerMap.mp hp)
    · rintro _ ⟨⟩
      exact hrelies
  case h_11 =>
    cases hstep
    cases hok _ rfl
  case h_12 written =>
    cases hstep
    obtain rfl : v.memory = written := hundisturbed
    exact ⟨⟨CacheData.within_empty, hv.toRemove, hv.latest, hv.older⟩, List.Subset.refl _,
      fun p hp => .inr (hrelies hp), nofun⟩
  case h_13 => cases hstep

end Flush

/-! ### The whole machine -/

variable {I : Type}

/-- Every peer that was added is in the file, or in the memory of the process that added it. -/
def PeersKept (s : CacheState I) : Prop :=
  ∀ e ∈ s.added, e.2 ∈ latestIds s.files.latest ∨ e.2 ∈ (s.memory e.1).peerIds

def AllOk (s : CacheState I) : Prop := ∀ result ∈ s.results, result = .ok ()

/-- There is room for all peers to begin with, none is to be removed, and no flush is running. -/
structure CacheState.Fresh (known : Finset PeerId) (s : CacheState I) : Prop where
  roomy : ∀ i, (s.view i).Roomy known
  flushes : s.flushes = []
  added : s.added = []

/-- Only known peers are added, and none is queued for removal. -/
def AddsOnly (config : I → BootstrapConfig Multiaddr) (known : Finset PeerId) (s : CacheState I) :
    CacheLabel I → Prop
  | .addAddr i addr => ∀ outcome ∈ (s.memory i).addAddr (config i) addr, outcome.1 ∈ known
  | .queueRemovePeer _ _ => False
  | .flush _ | .step _ _ => True

/-- A process flushes once at a time, and nothing comes in between. -/
def OneAtATime (s : CacheState I) : CacheLabel I → Prop
  | .flush i => ∀ flush ∈ s.flushes, flush.process ≠ i
  | .step k action => ∀ flush ∈ s.flushes[k]?,
      Undisturbed (s.view flush.process) flush.point action
  | .addAddr _ _ | .queueRemovePeer _ _ => True

structure CacheState.Sound (known : Finset PeerId) (s : CacheState I) : Prop where
  roomy : ∀ i, (s.view i).Roomy known
  alone : (s.flushes.map RunningFlush.process).Nodup
  relies : ∀ flush ∈ s.flushes, Relies known (s.view flush.process) flush.point
  kept : PeersKept s

section Machine

variable {known : Finset PeerId} {config : I → BootstrapConfig Multiaddr} {s s' : CacheState I}

theorem CacheState.Fresh.sound (h : s.Fresh known) : s.Sound known := by
  obtain ⟨hroomy, hflushes, hadded⟩ := h
  refine ⟨hroomy, ?_, ?_, ?_⟩
  · rw [hflushes]
    exact nodup_nil
  · rw [hflushes]
    nofun
  · unfold PeersKept
    rw [hadded]
    nofun

theorem addAddr_eq_some {c : BootstrapConfig Multiaddr} {data data' : CacheData} {addr : Multiaddr}
    {p : PeerId} (h : data.addAddr c addr = some (p, data')) :
    ∃ addrs, data' = data.addPeer p addrs c.maxAddrsPerCachedPeer c.maxCachedPeers := by
  obtain ⟨-, h⟩ := Option.ite_none_left_eq_some.mp h
  obtain ⟨crafted, -, h⟩ := Option.bind_eq_some_iff.mp h
  obtain ⟨peerId, -, h⟩ := Option.bind_eq_some_iff.mp h
  cases h
  exact ⟨[crafted], rfl⟩

variable {flush : RunningFlush I}

theorem process_ne (h : (s.flushes.map RunningFlush.process).Nodup) {j k : Nat}
    {other : RunningFlush I} (hk : s.flushes[k]? = some flush) (hj : s.flushes[j]? = some other)
    (hne : j ≠ k) : other.process ≠ flush.process := by
  intro heq
  have hlt : j < (s.flushes.map RunningFlush.process).length := by
    rw [length_map]
    exact (List.getElem?_eq_some_iff.mp hj).1
  apply hne
  apply (List.getElem?_inj hlt h).mp
  rw [List.getElem?_map, List.getElem?_map, hj, hk]
  exact congrArg some heq

variable [DecidableEq I]

/-! #### Adding a peer -/

theorem step_addAddr {i : I} {addr : Multiaddr}
    (h : cacheStep config s (.addAddr i addr) = some s') :
    s' = s ∨ ∃ p data, (s.memory i).addAddr (config i) addr = some (p, data) ∧
      s' = { s with memory := Function.update s.memory i data, added := s.added ++ [(i, p)] } := by
  simp only [cacheStep] at h
  cases hadd : (s.memory i).addAddr (config i) addr with
  | none =>
    rw [hadd] at h
    exact .inl (Option.some.inj h).symm
  | some outcome =>
    rw [hadd] at h
    exact .inr ⟨outcome.1, outcome.2, rfl, (Option.some.inj h).symm⟩

theorem sound_addAddr (hs : s.Sound known) {i : I} {p : PeerId} {data : CacheData}
    (hdata : data.Within known) (hmem : ∀ q, q ∈ data.peerIds ↔ q = p ∨ q ∈ (s.memory i).peerIds) :
    CacheState.Sound known
      { s with memory := Function.update s.memory i data, added := s.added ++ [(i, p)] } := by
  have hgrows : ∀ j, (s.memory j).peerIds ⊆ (Function.update s.memory i data j).peerIds := by
    intro j
    rcases eq_or_ne j i with rfl | hne
    · rw [Function.update_self]
      exact fun q hq => (hmem q).mpr (.inr hq)
    · rw [Function.update_of_ne hne]
      exact List.Subset.refl _
  refine ⟨?_, hs.alone, ?_, ?_⟩
  · intro j
    refine ⟨?_, (hs.roomy j).toRemove, (hs.roomy j).latest, (hs.roomy j).older⟩
    rcases eq_or_ne j i with rfl | hne
    · simpa only [CacheState.view, Function.update_self] using hdata
    · simpa only [CacheState.view, Function.update_of_ne hne] using (hs.roomy j).memory
  · intro flush hflush
    exact (hs.relies flush hflush).mono (hgrows flush.process) (List.Subset.refl _)
  · intro e he
    rcases mem_append.mp he with he | he
    · exact (hs.kept e he).imp_right (@hgrows e.1 e.2)
    · obtain rfl := mem_singleton.mp he
      right
      show p ∈ (Function.update s.memory i data i).peerIds
      rw [Function.update_self]
      exact (hmem p).mpr (.inl rfl)

/-! #### A part of a flush -/

theorem mem_flushes_flushed {k : Nat} {i : I} {v : FlushView} {next : FlushNext}
    {other : RunningFlush I} (h : other ∈ (s.flushed k i v next).flushes) :
    (∃ point, next = .goOn point ∧ other = ⟨i, point⟩) ∨
      ∃ j, j ≠ k ∧ s.flushes[j]? = some other := by
  cases next with
  | goOn point =>
    obtain ⟨j, hj⟩ := mem_iff_getElem?.mp h
    rcases eq_or_ne j k with rfl | hne
    · left
      refine ⟨point, rfl, ?_⟩
      obtain ⟨hlt, hget⟩ := List.getElem?_eq_some_iff.mp hj
      exact hget.symm.trans (getElem_set_self hlt)
    · right
      exact ⟨j, hne, (List.getElem?_set_ne hne.symm).symm.trans hj⟩
  | done result =>
    right
    exact mem_eraseIdx_iff_getElem?.mp h

theorem nodup_flushed (h : (s.flushes.map RunningFlush.process).Nodup) {k : Nat}
    (hk : s.flushes[k]? = some flush) (v : FlushView) (next : FlushNext) :
    ((s.flushed k flush.process v next).flushes.map RunningFlush.process).Nodup := by
  cases next with
  | goOn point =>
    have hsame : (s.flushes.set k ⟨flush.process, point⟩).map RunningFlush.process =
        s.flushes.map RunningFlush.process := by
      obtain ⟨hlt, rfl⟩ := List.getElem?_eq_some_iff.mp hk
      have hlt' : k < (s.flushes.map RunningFlush.process).length := by rwa [length_map]
      rw [map_set, ← getElem_map RunningFlush.process]
      exact set_getElem_self hlt'
    exact hsame ▸ h
  | done result => exact h.sublist ((eraseIdx_sublist _ _).map _)

theorem view_flushed (s : CacheState I) (k : Nat) (i : I) (v : FlushView) (next : FlushNext)
    (j : I) :
    (s.flushed k i v next).view j = if j = i then v else { s.view j with files := v.files } := by
  rcases eq_or_ne j i with rfl | hne
  · rw [if_pos rfl]
    cases next <;> simp only [CacheState.flushed, CacheState.view, Function.update_self]
  · rw [if_neg hne]
    cases next <;> simp only [CacheState.flushed, CacheState.view, Function.update_of_ne hne]

theorem sound_flushed (hs : s.Sound known) {k : Nat} (hk : s.flushes[k]? = some flush)
    {v : FlushView} {next : FlushNext} (hkeeps : Keeps known (s.view flush.process) v next) :
    (s.flushed k flush.process v next).Sound known := by
  have hview := view_flushed s k flush.process v next
  refine ⟨?_, nodup_flushed hs.alone hk v next, ?_, ?_⟩
  · intro j
    rw [hview]
    rcases eq_or_ne j flush.process with rfl | hne
    · rw [if_pos rfl]
      exact hkeeps.roomy
    · rw [if_neg hne]
      exact ⟨(hs.roomy j).memory, (hs.roomy j).toRemove, hkeeps.roomy.latest, hkeeps.roomy.older⟩
  · intro other hother
    rw [hview]
    rcases mem_flushes_flushed hother with ⟨point, hnext, rfl⟩ | ⟨j, hne, hj⟩
    · rw [if_pos rfl]
      exact hkeeps.relies point hnext
    · rw [if_neg (process_ne hs.alone hk hj hne)]
      exact (hs.relies other (mem_of_getElem? hj)).mono (List.Subset.refl _) hkeeps.file
  · intro e he
    have hfiles : (s.flushed k flush.process v next).files = v.files := by cases next <;> rfl
    have hadded : e ∈ s.added := by cases next <;> exact he
    have hmemory := congrArg FlushView.memory (hview e.1)
    change (s.flushed k flush.process v next).memory e.1 = _ at hmemory
    rw [hfiles, hmemory]
    rcases hs.kept e hadded with hfile | hmem
    · exact .inl (hkeeps.file hfile)
    rcases eq_or_ne e.1 flush.process with heq | hne
    · rw [if_pos heq]
      exact (hkeeps.memory e.2 (heq ▸ hmem)).symm
    · rw [if_neg hne]
      exact .inr hmem

/-! #### Runs -/

theorem allOk_of_step {label : CacheLabel I} (hstep : cacheStep config s label = some s')
    (hok : AllOk s') : AllOk s := by
  cases label with
  | addAddr i addr =>
    obtain rfl | ⟨p, data, -, rfl⟩ := step_addAddr hstep
    · exact hok
    · exact hok
  | queueRemovePeer i peerId | flush i => cases hstep; exact hok
  | step k action =>
    obtain ⟨flush, -, hstep⟩ := Option.bind_eq_some_iff.mp hstep
    obtain ⟨⟨v, next⟩, -, rfl⟩ := Option.map_eq_some_iff.mp hstep
    cases next with
    | goOn point => exact hok
    | done result => exact fun r hr => hok r (mem_append_left _ hr)

theorem sound_step (hroom : ∀ i, known.card ≤ (config i).maxCachedPeers) {label : CacheLabel I}
    (hs : s.Sound known) (hadds : AddsOnly config known s label) (hone : OneAtATime s label)
    (hstep : cacheStep config s label = some s') (hok : AllOk s') : s'.Sound known := by
  cases label with
  | addAddr i addr =>
    obtain rfl | ⟨p, data, hadd, rfl⟩ := step_addAddr hstep
    · exact hs
    · have hknown : p ∈ known := hadds _ hadd
      obtain ⟨addrs, rfl⟩ := addAddr_eq_some hadd
      have hmemory := (hs.roomy i).memory
      exact sound_addAddr hs (hmemory.addPeer (hroom i) hknown addrs)
        fun q => CacheData.mem_addPeer hmemory (hroom i) hknown
  | queueRemovePeer i peerId => exact hadds.elim
  | flush i =>
    cases hstep
    refine ⟨hs.roomy, ?_, ?_, hs.kept⟩
    · rw [map_append]
      refine nodup_append'.mpr ⟨hs.alone, nodup_singleton i, ?_⟩
      intro j hj hi
      obtain rfl := mem_singleton.mp hi
      obtain ⟨flush, hflush, heq⟩ := mem_map.mp hj
      exact hone flush hflush heq
    · intro flush hflush
      rcases mem_append.mp hflush with hflush | hflush
      · exact hs.relies flush hflush
      · obtain rfl := mem_singleton.mp hflush
        trivial
  | step k action =>
    obtain ⟨flush, hk, hstep⟩ := Option.bind_eq_some_iff.mp hstep
    obtain ⟨⟨v, next⟩, hpart, rfl⟩ := Option.map_eq_some_iff.mp hstep
    apply sound_flushed hs hk
    apply keeps_flushStep (hroom flush.process) (hs.roomy _)
      (hs.relies flush (mem_of_getElem? hk)) (hone flush hk) hpart
    rintro result rfl
    exact hok result (mem_append_right _ mem_cons_self)

/-! ### Schedules -/

instance (v : FlushView) : ∀ point action, Decidable (Undisturbed v point action)
  | .load, action => inferInstanceAs (Decidable (v.files.latest ≠ none → action.fileRead = true))
  | .write found, _ => inferInstanceAs (Decidable (v.files.latest = found))
  | .clear written, _ => inferInstanceAs (Decidable (v.memory = written))
  | .check, _ | .loadOlder _, _ | .merge _ _, _ | .drain _, _ | .remove _ _, _
  | .writeOlder _, _ => isTrue trivial

instance (s : CacheState I) : ∀ label, Decidable (AddsOnly config known s label)
  | .addAddr i addr => inferInstanceAs (Decidable
      (∀ outcome ∈ (s.memory i).addAddr (config i) addr, outcome.1 ∈ known))
  | .queueRemovePeer _ _ => isFalse id
  | .flush _ | .step _ _ => isTrue trivial

instance (s : CacheState I) : ∀ label, Decidable (OneAtATime s label)
  | .flush i => inferInstanceAs (Decidable (∀ flush ∈ s.flushes, flush.process ≠ i))
  | .step k action => inferInstanceAs (Decidable
      (∀ flush ∈ s.flushes[k]?, Undisturbed (s.view flush.process) flush.point action))
  | .addAddr _ _ | .queueRemovePeer _ _ => isTrue trivial

def lostPeers (s : CacheState I) : List (I × PeerId) :=
  s.added.filter fun e => e.2 ∉ latestIds s.files.latest ∧ e.2 ∉ (s.memory e.1).peerIds

omit [DecidableEq I] in
theorem peersKept_iff : PeersKept s ↔ lostPeers s = [] := by
  unfold PeersKept lostPeers
  simp only [filter_eq_nil_iff, decide_eq_true_eq, ← not_or, not_not]

theorem exists_loss {start : CacheState I} {schedule : List (CacheLabel I)}
    {results : List (Except BootstrapError Unit)} {e : I × PeerId} {rest : List (I × PeerId)}
    (h : (runGuarded (cacheStep config) (AddsOnly config known) start schedule).map
      (fun s => (s.flushes, s.results, lostPeers s)) = some ([], results, e :: rest))
    (hok : ∀ result ∈ results, result = .ok ()) :
    ∃ s, GuardedRun (cacheStep config) (AddsOnly config known) start schedule s ∧
      s.flushes = [] ∧ AllOk s ∧ ¬ PeersKept s := by
  obtain ⟨s, hs, hview⟩ := Option.map_eq_some_iff.mp h
  obtain ⟨hflushes, hview⟩ := Prod.mk.inj hview
  obtain ⟨rfl, hlost⟩ := Prod.mk.inj hview
  refine ⟨s, guardedRun_of_runGuarded hs, hflushes, hok, ?_⟩
  rw [peersKept_iff, hlost]
  exact cons_ne_nil e rest

end Machine

namespace Sample

def cacheConfig : BootstrapConfig Multiaddr where
  backwardsCompatibleWrites := false
  disableCacheWriting := false
  disableCacheReading := false
  disableEnvPeers := false
  first := false
  initialPeers := []
  localNetwork := false
  maxCachedPeers := 1500
  maxAddrsPerCachedPeer := 6
  networkContactsUrl := []

def cacheStart : CacheState Bool where
  memory _ := ⟨[]⟩
  toRemove _ := []
  files := ⟨none, none⟩
  flushes := []
  added := []
  results := []

def cachePeer (n : UInt8) : PeerId := [n]

def cacheAddr (n : UInt8) : Multiaddr := [.ip4 1, .udp 2, .quicV1, .p2p (cachePeer n)]

def cacheKnown : Finset PeerId := {cachePeer 1, cachePeer 2}

def uptoWrite (k : Nat) : List (CacheLabel Bool) :=
  [.step k .check, .step k (.load true), .step k (.loadOlder none), .step k .drain,
    .step k .remove]

/-- One peer is added after another was written and before the memory is cleared. -/
def addedMeanwhile : List (CacheLabel Bool) :=
  [.addAddr false (cacheAddr 1), .flush false] ++ uptoWrite 0 ++
    [.step 0 (.write .succeeded), .addAddr false (cacheAddr 2), .step 0 .clear]

def overwritten : List (CacheLabel Bool) :=
  [.addAddr false (cacheAddr 1), .addAddr true (cacheAddr 2), .flush false, .flush true] ++
    uptoWrite 0 ++ uptoWrite 1 ++
    [.step 0 (.write .succeeded), .step 1 (.write .succeeded), .step 0 .clear, .step 0 .clear]

def flushInTurn : List (CacheLabel Bool) :=
  [.addAddr false (cacheAddr 1), .addAddr true (cacheAddr 2), .flush false] ++ uptoWrite 0 ++
    [.step 0 (.write .succeeded), .step 0 .clear, .flush true, .step 0 .check,
      .step 0 (.load true), .step 0 (.merge [(cachePeer 1, [cacheAddr 1])]), .step 0 .drain,
      .step 0 .remove, .step 0 (.write .succeeded), .step 0 .clear]

/-- A schedule after which every flush has returned without an error, and some peer is nowhere. -/
def Loses (schedule : List (CacheLabel Bool)) : Prop :=
  ∃ s, GuardedRun (cacheStep fun _ => cacheConfig) (AddsOnly (fun _ => cacheConfig) cacheKnown)
    cacheStart schedule s ∧ s.flushes = [] ∧ AllOk s ∧ ¬ PeersKept s

theorem fresh_cacheStart : cacheStart.Fresh cacheKnown :=
  ⟨fun _ => ⟨CacheData.within_empty, rfl, nofun, nofun⟩, rfl, rfl⟩

theorem room_cacheConfig : ∀ _ : Bool, cacheKnown.card ≤ cacheConfig.maxCachedPeers := by
  decide

end Sample

section Machine

variable {known : Finset PeerId} [DecidableEq I] {config : I → BootstrapConfig Multiaddr}
  {s : CacheState I}

/-- **Where every process flushes once at a time and nothing comes in between, no peer is lost.**
There is room for all known peers, none is queued for removal, and all flushes return without an
error.  Then every peer that was added is in the file or in the memory of the process that added
it. -/
theorem added_peers_kept (hroom : ∀ i, known.card ≤ (config i).maxCachedPeers)
    {start : CacheState I} (hstart : start.Fresh known) {labels : List (CacheLabel I)}
    (hrun : GuardedRun (cacheStep config)
      (fun s label => AddsOnly config known s label ∧ OneAtATime s label) start labels s)
    (hok : AllOk s) : PeersKept s := by
  -- A run that will have failed owes nothing, so the invariant is conditional on no failure yet.
  have hsound : AllOk s → s.Sound known := by
    refine hrun.invariant (I := fun s => AllOk s → s.Sound known) ?_ fun _ => hstart.sound
    intro s label s' hinv hguard hstep hok'
    exact sound_step hroom (hinv (allOk_of_step hstep hok')) hguard.1 hguard.2 hstep hok'
  exact (hsound hok).kept

end Machine

open Sample

theorem added_peers_kept_in_turn :
    ∃ s, GuardedRun (cacheStep fun _ : Bool => Sample.cacheConfig)
        (fun s label => AddsOnly (fun _ => Sample.cacheConfig) Sample.cacheKnown s label ∧
          OneAtATime s label) Sample.cacheStart Sample.flushInTurn s ∧
      AllOk s ∧ s.added = [(false, Sample.cachePeer 1), (true, Sample.cachePeer 2)] ∧
      PeersKept s := by
  have hend : (runGuarded (cacheStep fun _ : Bool => cacheConfig)
      (fun s label => AddsOnly (fun _ => cacheConfig) cacheKnown s label ∧
        OneAtATime s label) cacheStart flushInTurn).map
        (fun s => (s.results, s.added)) =
      some ([.ok (), .ok ()], [(false, cachePeer 1), (true, cachePeer 2)]) := by
    rfl
  obtain ⟨s, hs, hview⟩ := Option.map_eq_some_iff.mp hend
  obtain ⟨hresults, hadded⟩ := Prod.mk.inj hview
  have hrun := guardedRun_of_runGuarded hs
  have hok : AllOk s := by
    unfold AllOk
    rw [hresults]
    simp
  exact ⟨s, hrun, hok, hadded, added_peers_kept room_cacheConfig fresh_cacheStart hrun hok⟩

/-- A peer is lost that is added between the write and the clearing of the memory, and so is one
that another process wrote between the read and the write. -/
theorem added_peer_lost :
    (∀ _ : Bool, Sample.cacheKnown.card ≤ Sample.cacheConfig.maxCachedPeers) ∧
    Sample.cacheStart.Fresh Sample.cacheKnown ∧
    Sample.Loses Sample.addedMeanwhile ∧ Sample.Loses Sample.overwritten := by
  have hmeanwhile : (runGuarded (cacheStep fun _ : Bool => cacheConfig)
      (AddsOnly (fun _ => cacheConfig) cacheKnown) cacheStart
      addedMeanwhile).map (fun s => (s.flushes, s.results, lostPeers s)) =
      some ([], [.ok ()], [(false, cachePeer 2)]) := by
    rfl
  have hoverwritten : (runGuarded (cacheStep fun _ : Bool => cacheConfig)
      (AddsOnly (fun _ => cacheConfig) cacheKnown) cacheStart
      overwritten).map (fun s => (s.flushes, s.results, lostPeers s)) =
      some ([], [.ok (), .ok ()], [(false, cachePeer 1)]) := by
    rfl
  exact ⟨room_cacheConfig, fresh_cacheStart, exists_loss hmeanwhile (by simp),
    exists_loss hoverwritten (by simp)⟩

/-! ### What a flush removes -/

section Removal

variable {config : BootstrapConfig Multiaddr} {v v' : FlushView} {point : FlushPoint}
  {r : Except BootstrapError Unit} {queue : List PeerId}

/-- A flush from some point to its end, with nothing else going on. -/
def runFlush (config : BootstrapConfig Multiaddr) :
    FlushView → FlushPoint → List FlushAction → Option (FlushView × Except BootstrapError Unit)
  | _, _, [] => none
  | v, point, action :: actions =>
    match flushStep config v point action with
    | some (v', .goOn next) => runFlush config v' next actions
    | some (v', .done r) => some (v', r)
    | none => none

/-- After a flush the queued peers are not in the file, or still queued if it fails. -/
def Removes (v v' : FlushView) (r : Except BootstrapError Unit) : Prop :=
  (r = .ok () → ∀ p ∈ v.toRemove, p ∉ latestIds v'.files.latest) ∧
    (r ≠ .ok () → v.toRemove ⊆ v'.toRemove)

/-- What has become of the queued peers, after some parts of a flush. -/
def Removing (queue : List PeerId) (v : FlushView) : FlushNext → Prop
  | .goOn .check => False
  | .goOn (.remove _ left) => v.toRemove = [] ∧ ∀ p ∈ queue, p ∈ left ∨ p ∉ v.memory.peerIds
  | .goOn (.write _) => v.toRemove = [] ∧ ∀ p ∈ queue, p ∉ v.memory.peerIds
  | .goOn (.writeOlder _) | .goOn (.clear _) | .done (.ok _) =>
    v.toRemove = [] ∧ ∀ p ∈ queue, p ∉ latestIds v.files.latest
  | .done (.error _) => v.toRemove = []
  | .goOn _ => v.toRemove = queue

theorem mem_removePeer {data : CacheData} {p peerId : PeerId} :
    p ∈ (data.removePeer peerId).peerIds ↔ p ∈ data.peerIds ∧ p ≠ peerId := by
  simp [CacheData.removePeer, CacheData.peerIds]

theorem removing_flushStep {action : FlushAction} {next : FlushNext}
    (h : Removing queue v (.goOn point))
    (hstep : flushStep config v point action = some (v', next)) : Removing queue v' next := by
  unfold flushStep at hstep
  split at hstep
  all_goals grind [Removing, loadLatest.eq_def, loadOlder.eq_def, mem_removePeer, latestIds,
    Option.map_eq_some_iff, Option.bind_eq_some_iff]

theorem removing_runFlush (actions : List FlushAction) : ∀ {v : FlushView} {point : FlushPoint},
    Removing queue v (.goOn point) → runFlush config v point actions = some (v', r) →
    Removing queue v' (.done r) := by
  induction actions with
  | nil =>
    intro v point _ hrun
    cases hrun
  | cons action actions ih =>
    intro v point h hrun
    unfold runFlush at hrun
    split at hrun
    · exact ih (removing_flushStep h ‹_›) hrun
    · cases hrun
      exact removing_flushStep h ‹_›
    · cases hrun

/--
**When a flush does what the queue asks for.**  If there is something in memory to flush or
none of the queued peers is in the file, and it goes well or nothing is queued.
-/
theorem flush_removes_iff (hwriting : config.disableCacheWriting = false)
    {actions : List FlushAction}
    (hrun : runFlush config v .check (.check :: actions) = some (v', r)) :
    Removes v v' r ↔
      (v.memory.peers ≠ [] ∨ ∀ p ∈ v.toRemove, p ∉ latestIds v.files.latest) ∧
        (r = .ok () ∨ v.toRemove = []) := by
  unfold Removes
  by_cases hempty : v.memory.peers = []
  · simp [runFlush, flushStep, hempty] at hrun
    obtain ⟨rfl, rfl⟩ := hrun
    simp [hempty]
  · simp [runFlush, flushStep, hempty, hwriting] at hrun
    have hload : Removing v.toRemove v (.goOn .load) := rfl
    have hremoved := removing_runFlush actions hload hrun
    cases r with
    | ok done => simpa [hempty] using hremoved.2
    | error e =>
      rw [show v'.toRemove = [] from hremoved]
      simp [hempty]

/-- One peer is to go that is in the file. -/
def Sample.flushSample (memory : List CachedPeer) : FlushView :=
  ⟨⟨memory⟩, [[2]], ⟨some ⟨[([2], [])]⟩, none⟩⟩

theorem flush_removes_sample :
    Removes (Sample.flushSample [([1], [])]) ⟨⟨[]⟩, [], ⟨some ⟨[([1], [])]⟩, none⟩⟩ (.ok ()) :=
  have hrun : runFlush cacheConfig (Sample.flushSample [([1], [])]) .check [.check, .load true,
    .merge [([2], [])], .drain, .remove, .remove, .write .succeeded, .clear] = some _ := rfl
  (flush_removes_iff rfl hrun).mpr ⟨.inl (cons_ne_nil _ _), .inl rfl⟩

/-- With nothing in memory, nothing is removed. -/
theorem flush_does_not_always_remove :
    ¬ ∀ (config : BootstrapConfig Multiaddr) (v v' : FlushView) (r : Except BootstrapError Unit)
      (actions : List FlushAction), config.disableCacheWriting = false →
      runFlush config v .check (.check :: actions) = some (v', r) → Removes v v' r := by
  intro h
  have hkept := (h cacheConfig (Sample.flushSample []) _ _ [] rfl rfl).1 rfl
  exact hkept [2] (mem_singleton.mpr rfl) (mem_singleton.mpr rfl)

end Removal

end Autonomi
