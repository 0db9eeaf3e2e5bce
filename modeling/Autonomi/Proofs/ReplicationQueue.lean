/-
What waits to be fetched, and what is being fetched.

`Keys` says something of every record that is waiting or being fetched.  No call adds
any but the records reported to it, so what holds of those goes on to hold of all
(`Keys.run`).  `set_farthest_on_full` throws out what is too far away, but the reports
that come later are not compared with the distance it sets.
-/
import Autonomi.Proofs.Fetcher

namespace Autonomi

open Lib

namespace ReplicationFetcher

variable {c : Crypto} {rank : PendingKey → Nat} {now : Time} {f f' : ReplicationFetcher}
  {holder : PeerId} {incomingKeys : List Report} {locallyStoredKeys : Table RecordKey IndexEntry}
  {closestPeers : List NetworkAddress} {P : RecordKey → Prop}

/-! ### The keys of a fetcher -/

/-- Every record that waits or is being fetched has the property. -/
structure Keys (P : RecordKey → Prop) (f : ReplicationFetcher) : Prop where
  waiting : ∀ k ∈ f.toBeFetched, P k.1
  fetching : ∀ k ∈ f.onGoingFetches, P k.1

variable (h : f.Keys P)

include h

theorem Keys.mono (hwaiting : ∀ k ∈ f'.toBeFetched, k ∈ f.toBeFetched ∨ P k.1)
    (hfetching : ∀ k ∈ f'.onGoingFetches, k ∈ f.onGoingFetches ∨ P k.1) : f'.Keys P where
  waiting k hk := (hwaiting k hk).elim (h.waiting k) id
  fetching k hk := (hfetching k hk).elim (h.fetching k) id

theorem Keys.next : (f.nextKeysToFetch c rank now).1.Keys P := by
  have hpruned : (f.pruneExpiredKeysAndSlowNodes now).Keys P :=
    h.mono (fun _ hk => .inl (Table.mem_of_mem_retain hk))
      (fun _ hk => .inl (Table.mem_of_mem_retain hk))
  obtain ⟨started, hstarted⟩ := exists_started c rank now f
  refine hpruned.mono (fun k hk => .inl ((hstarted.waiting k).mp hk).1) ?_
  intro k hk
  rcases (hstarted.fetching k).mp hk with hk | ⟨holder, hk⟩
  · exact .inl hk
  · exact .inr (hpruned.waiting _ (hstarted.waited _ hk))

theorem Keys.removeOutdated : (f.removeOutdated now locallyStoredKeys).Keys P := by
  have hstored : (f.removeStoredKeys locallyStoredKeys).Keys P :=
    h.mono (fun _ hk => .inl (Table.mem_of_mem_retain hk))
      (fun _ hk => .inl (Table.mem_of_mem_retain hk))
  exact hstored.mono (fun _ hk => .inl (Table.mem_of_mem_retain hk)) (fun _ hk => .inl hk)

theorem Keys.queued
    (hadd : ∀ candidate ∈
      (f.validCandidates c now holder incomingKeys locallyStoredKeys closestPeers).2,
      P (candidate.2.1.toRecordKey c)) :
    (f.queued c now holder incomingKeys locallyStoredKeys closestPeers).Keys P := by
  rw [queued_eq]
  have houtdated : (f.removeOutdated now locallyStoredKeys).Keys P := h.removeOutdated
  refine houtdated.mono ?_ (fun k hk => .inl hk)
  intro k hk
  rcases mem_queue.mp hk with hk | ⟨candidate, hcandidate, rfl⟩
  · exact .inl hk
  · exact .inr (hadd candidate hcandidate)

theorem Keys.freshened (hadd : ∀ report ∈ incomingKeys, P (report.1.toRecordKey c)) :
    (f.freshened c now holder incomingKeys locallyStoredKeys).Keys P := by
  refine h.removeOutdated.mono (fun k hk => .inl hk) ?_
  intro k hk
  rcases mem_fetchFresh.mp hk with hk | ⟨candidate, hcandidate, rfl⟩
  · exact .inl hk
  · obtain ⟨report, hreport, rfl⟩ := List.mem_map.mp hcandidate
    exact .inr (hadd report hreport)

end ReplicationFetcher

open ReplicationFetcher

/-- The reports a call may put among the records to fetch. -/
def FetcherCall.MayAdd (c : Crypto) (f : ReplicationFetcher) (report : Report) :
    FetcherCall → Prop
  | addKeys _ _ incomingKeys _ true _ => report ∈ incomingKeys
  | addKeys _ holder incomingKeys locallyStoredKeys false closestKPeers =>
    report ∈ incomingKeys ∧ f.isPeerTrustworthy holder ≠ some false ∧
      report.1.toRecordKey c ∉ locallyStoredKeys ∧
      (report.1.toRecordKey c, report.2, holder) ∉ f.toBeFetched ∧
      f.InRange c closestKPeers report.1
  | _ => False

variable {c : Crypto} {f : ReplicationFetcher} {P : RecordKey → Prop} {now : Time}

/-- **A call adds only what is reported to it.** -/
theorem ReplicationFetcher.Keys.run {call : FetcherCall} (h : f.Keys P)
    (hadd : ∀ report, call.MayAdd c f report → P (report.1.toRecordKey c)) :
    (call.run c now f).Keys P := by
  cases call with
  | addKeys rank holder incomingKeys locallyStoredKeys isFreshReplicate closestKPeers =>
    cases isFreshReplicate with
    | true => exact (h.freshened hadd).next
    | false =>
      refine (h.queued fun candidate hcandidate => hadd candidate.2 ?_).next
      obtain ⟨hmem, hrest⟩ := mem_inRangeNewKeys.mp (mem_newKeys_of_mem_validCandidates hcandidate)
      refine ⟨hmem, fun htrust => ?_, hrest⟩
      rw [validCandidates_of_untrustworthy htrust] at hcandidate
      cases hcandidate
  | addPeerScores rank scores =>
    rw [FetcherCall.run, addPeerScores_frame]
    exact ⟨h.waiting, h.fetching⟩
  | setReplicationDistanceRange distanceRange => exact ⟨h.waiting, h.fetching⟩
  | setFarthestOnFull farthestIn =>
    change (f.setFarthestOnFull c farthestIn).Keys P
    unfold setFarthestOnFull
    cases farthestIn with
    | none => exact h
    | some key =>
      dsimp only
      split
      · exact h
      · exact h.mono (fun _ hk => .inl (Table.mem_of_mem_retain hk))
          (fun _ hk => .inl (Table.mem_of_mem_retain hk))
  | notifyAboutNewPut rank newPut recordType | notifyFetchEarlyCompleted rank keyIn recordType =>
    exact (h.mono (fun _ hk => .inl (Table.mem_of_mem_retain hk))
      (fun _ hk => .inl (Table.mem_of_mem_retain hk))).next
  | nextKeysToFetch rank => exact h.next

/-! ### Full nodes -/

theorem NetworkAddress.distance_recordKey (a address : NetworkAddress) :
    a.distance c (.recordKey (address.toRecordKey c)) = a.distance c address := by
  cases address <;> rfl

/-- Nothing that waits or is being fetched is too far away for a full node. -/
def WithinFarthest (c : Crypto) (f : ReplicationFetcher) : Prop :=
  ∀ d, f.farthestAcceptableDistance = some d → f.Keys fun key => f.distance c (.recordKey key) ≤ d

/-- What a full node may add is no farther away than the farthest it accepts. -/
def AddsWithinFarthest (c : Crypto) (s : FetcherState) : FetcherLabel → Prop
  | .tick _ => True
  | .call call => ∀ d, s.fetcher.farthestAcceptableDistance = some d →
      ∀ report, call.MayAdd c s.fetcher report → s.fetcher.distance c report.1 ≤ d

theorem WithinFarthest.setFarthestOnFull (h : WithinFarthest c f) (farthestIn : Option RecordKey) :
    WithinFarthest c (f.setFarthestOnFull c farthestIn) := by
  unfold ReplicationFetcher.setFarthestOnFull
  cases farthestIn with
  | none => exact h
  | some key =>
    dsimp only
    split
    · exact h
    · intro d hd
      cases hd
      constructor
      · intro k hk
        obtain ⟨timeOut, -, hkeep⟩ := Table.mem_retain.mp hk
        exact of_decide_eq_true hkeep
      · intro k hk
        obtain ⟨fetch, -, hkeep⟩ := Table.mem_retain.mp hk
        exact of_decide_eq_true hkeep

theorem WithinFarthest.run {call : FetcherCall} (h : WithinFarthest c f)
    (hadd : ∀ d, f.farthestAcceptableDistance = some d →
      ∀ report, call.MayAdd c f report → f.distance c report.1 ≤ d) :
    WithinFarthest c (call.run c now f) := by
  by_cases hfull : ∃ farthestIn, call = .setFarthestOnFull farthestIn
  · obtain ⟨farthestIn, rfl⟩ := hfull
    exact h.setFarthestOnFull farthestIn
  · intro d hd
    rw [run_farthestAcceptableDistance (not_exists.mp hfull)] at hd
    have hkeys : (call.run c now f).Keys fun key => f.distance c (.recordKey key) ≤ d := by
      refine (h d hd).run fun report hreport => ?_
      rw [distance, NetworkAddress.distance_recordKey]
      exact hadd d hd report hreport
    unfold distance at hkeys ⊢
    rw [run_selfPeerId]
    exact hkeys

/-- **A full node fetches nothing farther away than it accepts**, in a run in which nothing
farther away is reported to it. -/
theorem fetches_within_farthest {selfPeerId : PeerId} {labels : List FetcherLabel}
    {s : FetcherState}
    (hrun : GuardedRun (FetcherState.step c) (AddsWithinFarthest c) (.init selfPeerId) labels s)
    {d : Nat} (hd : s.fetcher.farthestAcceptableDistance = some d) :
    (∀ k ∈ s.fetcher.toBeFetched, s.fetcher.distance c (.recordKey k.1) ≤ d) ∧
      ∀ k ∈ s.fetcher.onGoingFetches, s.fetcher.distance c (.recordKey k.1) ≤ d := by
  have hinv : WithinFarthest c s.fetcher := by
    refine hrun.invariant (I := fun s => WithinFarthest c s.fetcher) ?_ ?_
    · intro s label s' hs hguard hstep
      cases label with
      | tick duration =>
        cases hstep
        exact hs
      | call call =>
        cases hstep
        exact hs.run hguard
    · intro d hd
      cases hd
  exact ⟨(hinv d hd).waiting, (hinv d hd).fetching⟩

/-- Our own address hashes to zero here, so a key is as far away as its hash is large. -/
def sampleSelf : PeerId := []

def sampleHolder : PeerId := [10]

def sampleTrusted : FetcherLabel :=
  .call (.addPeerScores (fun _ => 0) [(sampleHolder, true), (sampleHolder, true)])

def reportedWhenFull (key : RecordKey) : List FetcherLabel :=
  [sampleTrusted, .call (.setFarthestOnFull (some [1])),
    .call (.addKeys (fun _ => 0) sampleHolder [(.recordKey key, .chunk)] ∅ false
      [.peerId sampleHolder])]

theorem fetches_within_farthest_sample :
    ∃ s, GuardedRun (FetcherState.step .simple) (AddsWithinFarthest .simple) (.init sampleSelf)
        (reportedWhenFull [0]) s ∧
      s.fetcher.farthestAcceptableDistance = some 2 ∧ ([0], .chunk) ∈ s.fetcher.onGoingFetches ∧
      ∀ k ∈ s.fetcher.onGoingFetches, s.fetcher.distance .simple (.recordKey k.1) ≤ 2 := by
  have hrun : ∃ s, GuardedRun (FetcherState.step .simple) (AddsWithinFarthest .simple)
      (.init sampleSelf) (reportedWhenFull [0]) s ∧
        s.fetcher.farthestAcceptableDistance = some 2 ∧
        ([0], .chunk) ∈ s.fetcher.onGoingFetches := by
    refine ⟨_, .cons ?_ rfl (.cons ?_ rfl (.cons ?_ rfl (.nil _))), ?_, ?_⟩
    · intro d hd
      cases hd
    · intro d hd
      cases hd
    · intro d hd report hreport
      obtain ⟨hmem, -⟩ := hreport
      obtain rfl := List.mem_singleton.mp hmem
      have hdistance : some d = some 2 := by
        rw [← hd]
        decide
      rw [Option.some.inj hdistance]
      decide
    · decide
    · decide
  obtain ⟨s, hs, hfarthest, hmem⟩ := hrun
  exact ⟨s, hs, hfarthest, hmem, (fetches_within_farthest hs hfarthest).2⟩

/-- A full node takes up a record farther away than any it accepts. -/
theorem farther_record_fetched :
    ∃ s, runSteps (FetcherState.step .simple) (.init sampleSelf) (reportedWhenFull [5]) = some s ∧
      s.fetcher.farthestAcceptableDistance = some 2 ∧
      ∃ k ∈ s.fetcher.onGoingFetches, 2 < s.fetcher.distance .simple (.recordKey k.1) := by
  refine ⟨_, rfl, ?_, ([5], .chunk), ?_, ?_⟩ <;> decide

/-! ### Other versions of what is stored -/

namespace ReplicationFetcher

variable {rank : PendingKey → Nat} {f' : ReplicationFetcher} {started : List PendingKey}
  {holder : PeerId} {incomingKeys : List Report} {locallyStoredKeys : Table RecordKey IndexEntry}
  {closestPeers : List NetworkAddress} {k : RecordKey × ValidationType}

/-- The record waits to be fetched from some peer, or is being fetched. -/
def Fetches (f : ReplicationFetcher) (k : RecordKey × ValidationType) : Prop :=
  (∃ peer, (k.1, k.2, peer) ∈ f.toBeFetched) ∨ k ∈ f.onGoingFetches

theorem Started.fetches_iff (h : Started f f' started) : f'.Fetches k ↔ f.Fetches k := by
  constructor
  · rintro (⟨peer, hpeer⟩ | hfetching)
    · exact .inl ⟨peer, ((h.waiting _).mp hpeer).1⟩
    · rcases (h.fetching k).mp hfetching with hfetching | ⟨peer, hpeer⟩
      · exact .inr hfetching
      · exact .inl ⟨peer, h.waited _ hpeer⟩
  · rintro (⟨peer, hpeer⟩ | hfetching)
    · by_cases hstarted : (k.1, k.2, peer) ∈ started
      · exact .inr ((h.fetching k).mpr (.inr ⟨peer, hstarted⟩))
      · exact .inl ⟨peer, (h.waiting _).mpr ⟨hpeer, hstarted⟩⟩
    · exact .inr ((h.fetching k).mpr (.inl hfetching))

/-- A fetch from the peer has timed out, and not of something stored by now. -/
def Failing (now : Time) (locallyStoredKeys : Table RecordKey IndexEntry) (f : ReplicationFetcher)
    (peer : PeerId) : Prop :=
  ∃ k timeOut, f.onGoingFetches.lookup k = some (peer, timeOut) ∧
    notStored locallyStoredKeys k.1 k.2 = true ∧ timeOut < now

/-- The record has been asked for before, and not given up. -/
def OnTheWay (now : Time) (locallyStoredKeys : Table RecordKey IndexEntry) (f : ReplicationFetcher)
    (k : RecordKey × ValidationType) : Prop :=
  (∃ peer timeOut, f.toBeFetched.lookup (k.1, k.2, peer) = some timeOut ∧ now < timeOut ∧
    ¬ f.Failing now locallyStoredKeys peer) ∨
  ∃ fetch, f.onGoingFetches.lookup k = some fetch ∧ now ≤ fetch.2

theorem fetches_addKeys_iff
    (hnone : ∀ candidate ∈
      (f.validCandidates c now holder incomingKeys locallyStoredKeys closestPeers).2,
      candidate.2.1.toRecordKey c ≠ k.1)
    (hstored : notStored locallyStoredKeys k.1 k.2 = true) :
    (f.addKeys c rank now holder incomingKeys locallyStoredKeys false closestPeers).1.Fetches k ↔
      f.OnTheWay now locallyStoredKeys k := by
  obtain ⟨started, hstarted⟩ := exists_started c rank now
    (f.queued c now holder incomingKeys locallyStoredKeys closestPeers)
  have hqueue : ∀ peer,
      (k.1, k.2, peer) ∈
          (f.queued c now holder incomingKeys locallyStoredKeys closestPeers).toBeFetched ↔
        ∃ timeOut, f.toBeFetched.lookup (k.1, k.2, peer) = some timeOut ∧ now < timeOut := by
    intro peer
    rw [mem_toBeFetched_queued, or_iff_left]
    · simp only [hstored, true_and]
    · rintro ⟨candidate, hcandidate, heq⟩
      exact hnone candidate hcandidate (congrArg Prod.fst heq).symm
  have hfailing : ∀ peer,
      peer ∈ (f.queued c now holder incomingKeys locallyStoredKeys closestPeers).failedHolders now ↔
        f.Failing now locallyStoredKeys peer := by
    intro peer
    simp only [mem_failedHolders, lookup_onGoingFetches_queued, Option.filter_eq_some_iff, Failing,
      and_assoc]
  rw [addKeys_report, hstarted.fetches_iff]
  refine or_congr (exists_congr fun peer => ?_) ?_
  · change _ ∈ Table.retain _ _ ↔ _
    rw [Table.mem_retain]
    simp only [decide_eq_true_eq, hfailing, exists_and_right, ← and_assoc]
    refine and_congr_left fun _ => ?_
    rw [← hqueue peer, Table.mem_iff_lookup]
  · change _ ∈ Table.retain _ _ ↔ _
    rw [Table.mem_retain]
    simp only [lookup_onGoingFetches_queued, Option.filter_eq_some_iff, hstored, and_true,
      decide_eq_true_eq, not_lt]

/-- A trustworthy holder reports an address in range that holds another version here. -/
structure DivergentReport (c : Crypto) (f : ReplicationFetcher) (holder : PeerId)
    (incomingKeys : List Report) (locallyStoredKeys : Table RecordKey IndexEntry)
    (closestPeers : List NetworkAddress) (address : NetworkAddress) (contentHash : XorName) :
    Prop where
  trustworthy : f.isPeerTrustworthy holder = some true
  reported : (address, .nonChunk contentHash) ∈ incomingKeys
  inRange : f.InRange c closestPeers address
  stored : ∃ entry otherHash, locallyStoredKeys.lookup (address.toRecordKey c) = some entry ∧
    entry.validationType = .nonChunk otherHash ∧ otherHash ≠ contentHash
  notPending : (address.toRecordKey c, .nonChunk contentHash, holder) ∉ f.toBeFetched

/-- **Another version of what is stored is fetched only if it was on the way before**: the
report itself is dropped. -/
theorem divergent_fetched_iff (rank : PendingKey → Nat) (now : Time) {address : NetworkAddress}
    {contentHash : XorName}
    (h : DivergentReport c f holder incomingKeys locallyStoredKeys closestPeers address contentHash) :
    (f.addKeys c rank now holder incomingKeys locallyStoredKeys false closestPeers).1.Fetches
        (address.toRecordKey c, .nonChunk contentHash) ↔
      f.OnTheWay now locallyStoredKeys (address.toRecordKey c, .nonChunk contentHash) := by
  obtain ⟨entry, otherHash, hlookup, htype, hne⟩ := h.stored
  refine fetches_addKeys_iff ?_ ?_
  · intro candidate hcandidate hkey
    obtain ⟨-, hnotStored, -⟩ :=
      mem_inRangeNewKeys.mp (mem_newKeys_of_mem_validCandidates hcandidate)
    rw [hkey, ← AList.lookup_isSome, hlookup] at hnotStored
    exact hnotStored rfl
  · rw [notStored, hlookup]
    simp [htype, hne.symm]

/-- A fetcher that trusts the holder, and has asked another peer for the given records. -/
def sampleFetcher (pending : Table PendingKey Time) : ReplicationFetcher :=
  { (new sampleSelf).addPeerScores (fun _ => 0) 0 [(sampleHolder, true), (sampleHolder, true)] with
    toBeFetched := pending }

def sampleStored : Table RecordKey IndexEntry :=
  AList.singleton [5] ⟨.recordKey [5], .nonChunk (bytes32 1), .pointer⟩

theorem sampleDivergent {pending : Table PendingKey Time}
    (h : ([5], .nonChunk (bytes32 2), sampleHolder) ∉ pending) :
    DivergentReport .simple (sampleFetcher pending) sampleHolder
      [(.recordKey [5], .nonChunk (bytes32 2))] sampleStored [.peerId sampleHolder] (.recordKey [5])
      (bytes32 2) where
  trustworthy := rfl
  reported := List.mem_singleton.mpr rfl
  inRange := ⟨.peerId sampleHolder, List.mem_cons_self, by
    change (NetworkAddress.peerId sampleSelf).distance .simple _
      ≤ (NetworkAddress.peerId sampleSelf).distance .simple _
    decide⟩
  stored := ⟨⟨.recordKey [5], .nonChunk (bytes32 1), .pointer⟩, bytes32 1, by decide, rfl,
    fun heq => absurd (bytes32_inj (by decide) (by decide) heq) (by decide)⟩
  notPending := h

theorem divergent_fetched_sample :
    ((sampleFetcher (AList.singleton ([5], .nonChunk (bytes32 2), [11]) 100)).addKeys .simple
      (fun _ => 0) 7 sampleHolder [(.recordKey [5], .nonChunk (bytes32 2))] sampleStored false
      [.peerId sampleHolder]).1.Fetches ([5], .nonChunk (bytes32 2)) := by
  refine (divergent_fetched_iff (fun _ => 0) 7 (sampleDivergent (by decide))).mpr ?_
  refine .inl ⟨[11], 100, by decide, by decide, ?_⟩
  rintro ⟨k, timeOut, hlookup, -⟩
  cases hlookup

/-- The version of a trustworthy holder is neither queued nor fetched. -/
theorem divergent_not_fetched :
    DivergentReport .simple (sampleFetcher ∅) sampleHolder
        [(.recordKey [5], .nonChunk (bytes32 2))] sampleStored [.peerId sampleHolder]
        (.recordKey [5]) (bytes32 2) ∧
      ¬ ((sampleFetcher ∅).addKeys .simple (fun _ => 0) 7 sampleHolder
        [(.recordKey [5], .nonChunk (bytes32 2))] sampleStored false
        [.peerId sampleHolder]).1.Fetches ([5], .nonChunk (bytes32 2)) := by
  refine ⟨sampleDivergent (AList.notMem_empty _), ?_⟩
  rintro (⟨peer, hpeer⟩ | hfetching)
  · cases hpeer
  · revert hfetching
    decide

end ReplicationFetcher

end Autonomi
