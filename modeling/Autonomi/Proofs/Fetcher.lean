/-
What the functions of the replication fetcher do.

One lemma says what each function makes of the part of the fetcher it is about: who
has reported what, which entries wait, which are being fetched.  The results about
whole runs rest on these and look at no definition again.

`Started` is what scheduling comes down to: some entries that waited are being fetched
instead, and nothing else has changed.
-/
import Autonomi.Lib.Ranked
import Autonomi.Node.ReplicationFetcher

namespace Autonomi.ReplicationFetcher

open Lib List

variable {c : Crypto} {now : Time} {f : ReplicationFetcher} {holder : PeerId} {report : Report}

/-! ### Reports -/

variable (replicates : Table Report (PeerSet × Time))

def reporters (report : Report) : PeerSet :=
  ((replicates.lookup report).map Prod.fst).getD .empty

def firstSeen (now : Time) (replicates : Table Report (PeerSet × Time)) (report : Report) : Time :=
  ((replicates.lookup report).map Prod.snd).getD now

variable {peer : PeerId}

theorem mem_insert_peerSet {peers : PeerSet} {other : PeerId} :
    other ∈ (peers.insert peer).1 ↔ other = peer ∨ other ∈ peers.1 := mem_insert_iff

theorem insert_insert_peerSet (peers : PeerSet) (peer : PeerId) :
    (peers.insert peer).insert peer = peers.insert peer :=
  Subtype.ext (insert_of_mem (mem_insert_peerSet.mpr (.inl rfl)))

theorem accumulate_cons (incomingKeys : List Report) :
    accumulate now holder (report :: incomingKeys) replicates =
      let rest := accumulate now holder incomingKeys (replicates.insert report
        ((reporters replicates report).insert holder, firstSeen now replicates report))
      (rest.1, if closeGroupSize / 2 ≤ ((reporters replicates report).insert holder).1.length
        then report :: rest.2 else rest.2) := by
  rw [accumulate, reporters, firstSeen]
  cases replicates.lookup report <;> rfl

theorem reporters_insert_self (peers : PeerSet)
    (t : Time) : reporters (replicates.insert report (peers, t)) report = peers := by
  rw [reporters, AList.lookup_insert]
  rfl

theorem reporters_insert_ne {other : Report} (h : other ≠ report)
    (replicates : Table Report (PeerSet × Time)) (peers : PeerSet) (t : Time) :
    reporters (replicates.insert report (peers, t)) other = reporters replicates other := by
  rw [reporters, reporters, AList.lookup_insert_ne h]

theorem firstSeen_insert_self (peers : PeerSet) (t : Time) :
    firstSeen now (replicates.insert report (peers, t)) report = t := by
  rw [firstSeen, AList.lookup_insert]
  rfl

theorem firstSeen_insert_ne {other : Report} (h : other ≠ report) (peers : PeerSet) (t : Time) :
    firstSeen now (replicates.insert report (peers, t)) other = firstSeen now replicates other := by
  rw [firstSeen, firstSeen, AList.lookup_insert_ne h]

variable {replicates : Table Report (PeerSet × Time)} {incomingKeys : List Report}

theorem lookup_accumulate :
    (accumulate now holder incomingKeys replicates).1.lookup report =
      if report ∈ incomingKeys then
        some ((reporters replicates report).insert holder, firstSeen now replicates report)
      else replicates.lookup report := by
  induction incomingKeys generalizing replicates with
  | nil => rfl
  | cons first incomingKeys ih =>
    rw [accumulate_cons, ih]
    by_cases hfirst : report = first
    · subst hfirst
      rw [reporters_insert_self, firstSeen_insert_self, insert_insert_peerSet, AList.lookup_insert,
        if_pos mem_cons_self]
      exact ite_self _
    · rw [reporters_insert_ne hfirst, firstSeen_insert_ne _ hfirst, AList.lookup_insert_ne hfirst]
      simp only [mem_cons, hfirst, false_or]

theorem mem_majorities :
    report ∈ (accumulate now holder incomingKeys replicates).2 ↔
      report ∈ incomingKeys ∧
        closeGroupSize / 2 ≤ ((reporters replicates report).insert holder).1.length := by
  induction incomingKeys generalizing replicates with
  | nil => simp [accumulate]
  | cons first incomingKeys ih =>
    have hrest := @ih (replicates.insert first
      ((reporters replicates first).insert holder, firstSeen now replicates first))
    rw [accumulate_cons]
    by_cases hfirst : report = first
    · subst hfirst
      rw [reporters_insert_self, insert_insert_peerSet] at hrest
      split
      · rename_i hmajority
        exact iff_of_true mem_cons_self ⟨mem_cons_self, hmajority⟩
      · rename_i hmajority
        rw [hrest]
        exact iff_of_false (fun h => hmajority h.2) (fun h => hmajority h.2)
    · rw [reporters_insert_ne hfirst] at hrest
      have hmem : report ∈ first :: incomingKeys ↔ report ∈ incomingKeys := by
        rw [mem_cons, or_iff_right hfirst]
      rw [hmem, ← hrest]
      dsimp only
      split
      · rw [mem_cons, or_iff_right hfirst]
      · exact Iff.rfl

theorem lookup_takeMajorities {majorities : List Report} :
    (takeMajorities majorities replicates).1.lookup report =
      if report ∈ majorities then none else replicates.lookup report := by
  induction majorities generalizing replicates with
  | nil => rfl
  | cons first majorities ih =>
    have hstep : (takeMajorities (first :: majorities) replicates).1
        = (takeMajorities majorities (replicates.erase first)).1 := by
      rw [takeMajorities]
      cases hlookup : replicates.lookup first with
      | some reported => rfl
      | none =>
        have herase : replicates.erase first = replicates := by
          refine AList.ext (kerase_of_notMem_keys ?_)
          exact AList.lookup_eq_none.mp hlookup
        rw [herase]
    rw [hstep, ih]
    by_cases hfirst : report = first
    · subst hfirst
      rw [AList.lookup_erase, ite_self, if_pos mem_cons_self]
    · rw [AList.lookup_erase_ne hfirst]
      simp only [mem_cons, hfirst, false_or]

theorem mem_takeMajorities {majorities : List Report} :
    (peer, report) ∈ (takeMajorities majorities replicates).2 ↔
      report ∈ majorities ∧ peer ∈ (reporters replicates report).1 := by
  induction majorities generalizing replicates with
  | nil => simp [takeMajorities]
  | cons first majorities ih =>
    rw [takeMajorities]
    by_cases hfirst : report = first
    · subst hfirst
      cases hlookup : replicates.lookup report with
      | none | some reported => simp [ih, reporters, hlookup, PeerSet.empty]
    · cases hlookup : replicates.lookup first with
      | none => simp [ih, hfirst]
      | some reported =>
        simp [ih, hfirst, Ne.symm hfirst, reporters, AList.lookup_erase_ne hfirst]

def reportersWith (f : ReplicationFetcher) (holder : PeerId) (report : Report) : PeerSet :=
  (reporters f.initialReplicates report).insert holder

/-- **What is accepted by majority**: the keys just reported that enough peers have reported. -/
theorem mem_initialMajorityReplicates :
    (peer, report) ∈ (f.initialMajorityReplicates now holder incomingKeys).2 ↔
      report ∈ incomingKeys ∧ closeGroupSize / 2 ≤ (f.reportersWith holder report).1.length ∧
        peer ∈ (f.reportersWith holder report).1 := by
  have hreporters : report ∈ incomingKeys →
      reporters (accumulate now holder incomingKeys f.initialReplicates).1 report
        = f.reportersWith holder report := by
    intro h
    rw [reporters, lookup_accumulate, if_pos h]
    rfl
  change (peer, report) ∈ (takeMajorities _ _).2 ↔ _
  rw [mem_takeMajorities, mem_majorities, and_assoc]
  refine and_congr_right fun h => ?_
  rw [hreporters h]
  rfl

theorem lookup_initialMajorityReplicates :
    (f.initialMajorityReplicates now holder incomingKeys).1.initialReplicates.lookup report =
      if report ∈ incomingKeys then
        if closeGroupSize / 2 ≤ (f.reportersWith holder report).1.length then none
        else some (f.reportersWith holder report, firstSeen now f.initialReplicates report)
      else f.initialReplicates.lookup report := by
  change (takeMajorities _ _).1.lookup report = _
  simp only [lookup_takeMajorities, lookup_accumulate, mem_majorities]
  by_cases h : report ∈ incomingKeys
  · simp only [h, true_and, if_true]
    rfl
  · simp only [h, false_and, if_false]

/-! ### New keys, and candidates -/

variable {rank : PendingKey → Nat} {incomingKeys : List Report}
  {locallyStoredKeys : Table RecordKey IndexEntry} {closestPeers : List NetworkAddress}

/-- No farther from us than the farthest of the peers. -/
def InRange (c : Crypto) (f : ReplicationFetcher) (closestPeers : List NetworkAddress)
    (address : NetworkAddress) : Prop :=
  ∃ peer ∈ closestPeers ++ [.peerId f.selfPeerId], f.distance c address ≤ f.distance c peer

theorem mem_inRangeNewKeys :
    report ∈ f.inRangeNewKeys c holder incomingKeys locallyStoredKeys closestPeers ↔
      report ∈ incomingKeys ∧ report.1.toRecordKey c ∉ locallyStoredKeys ∧
        (report.1.toRecordKey c, report.2, holder) ∉ f.toBeFetched ∧
        f.InRange c closestPeers report.1 := by
  unfold inRangeNewKeys
  cases hlast : (((closestPeers ++ [NetworkAddress.peerId f.selfPeerId]).insertionSort
      fun a b => f.distance c a ≤ f.distance c b).getLast?.map (f.distance c)) with
  | none =>
    rw [Option.map_eq_none_iff, List.getLast?_eq_none_iff, ← length_eq_zero_iff] at hlast
    simp at hlast
  | some maxDistance =>
    simp only [hlast, mem_filter, decide_eq_true_eq, not_or, le_last_insertionSort hlast,
      InRange, and_assoc]

theorem isPeerTrustworthy_eq_true :
    f.isPeerTrustworthy holder = some true ↔
      ∃ t, f.peersScores.lookup holder = some (⟨[true, true], Nat.le_refl 2⟩, t) := by
  unfold isPeerTrustworthy
  cases f.peersScores.lookup holder with
  | none => simp
  | some entry =>
    obtain ⟨⟨scores, hlength⟩, t⟩ := entry
    match scores, hlength with
    | [], _ => simp
    | [_], _ => simp
    | [a, b], _ => cases a <;> cases b <;> simp

variable {candidates : List Candidate}

theorem addMissing_eq {result : List Candidate}
    (h : ∀ candidate ∈ candidates, ∃ existing ∈ result, existing.2 = candidate.2) :
    addMissing result candidates = result := by
  induction candidates with
  | nil => rfl
  | cons candidate candidates ih =>
    obtain ⟨hfirst, hrest⟩ := forall_mem_cons.mp h
    have hpresent : (result.any fun existing => existing.2 = candidate.2) = true := by
      simpa using hfirst
    rw [addMissing]
    simp only [hpresent, if_true]
    exact ih hrest

/-- What a trustworthy holder reports is taken as it is, and counts as a report. -/
theorem validCandidates_of_trustworthy (h : f.isPeerTrustworthy holder = some true) :
    f.validCandidates c now holder incomingKeys locallyStoredKeys closestPeers =
      let newKeys := f.inRangeNewKeys c holder incomingKeys locallyStoredKeys closestPeers
      ((f.initialMajorityReplicates now holder newKeys).1, newKeys.map fun r => (holder, r)) := by
  rw [validCandidates, h]
  dsimp only
  rw [addMissing_eq]
  intro candidate hcandidate
  obtain ⟨hmem, -⟩ := mem_initialMajorityReplicates.mp hcandidate
  exact ⟨(holder, candidate.2), mem_map_of_mem hmem, rfl⟩

theorem validCandidates_of_untrustworthy (h : f.isPeerTrustworthy holder = some false) :
    f.validCandidates c now holder incomingKeys locallyStoredKeys closestPeers = (f, []) := by
  rw [validCandidates, h]

theorem validCandidates_of_unknown (h : f.isPeerTrustworthy holder = none) :
    f.validCandidates c now holder incomingKeys locallyStoredKeys closestPeers =
      f.initialMajorityReplicates now holder
        (f.inRangeNewKeys c holder incomingKeys locallyStoredKeys closestPeers) := by
  rw [validCandidates, h]

theorem validCandidates_reports (h : f.isPeerTrustworthy holder ≠ some false) :
    (f.validCandidates c now holder incomingKeys locallyStoredKeys closestPeers).1 =
      (f.initialMajorityReplicates now holder
        (f.inRangeNewKeys c holder incomingKeys locallyStoredKeys closestPeers)).1 := by
  cases hknown : f.isPeerTrustworthy holder with
  | none => rw [validCandidates_of_unknown hknown]
  | some trusted =>
    cases trusted with
    | false => exact absurd hknown h
    | true => rw [validCandidates_of_trustworthy hknown]

theorem mem_newKeys_of_mem_validCandidates {candidate : Candidate}
    (h : candidate ∈
      (f.validCandidates c now holder incomingKeys locallyStoredKeys closestPeers).2) :
    candidate.2 ∈ f.inRangeNewKeys c holder incomingKeys locallyStoredKeys closestPeers := by
  cases htrust : f.isPeerTrustworthy holder with
  | none =>
    rw [validCandidates_of_unknown htrust] at h
    exact (mem_initialMajorityReplicates.mp h).1
  | some trusted =>
    cases trusted with
    | false =>
      rw [validCandidates_of_untrustworthy htrust] at h
      cases h
    | true =>
      rw [validCandidates_of_trustworthy htrust] at h
      obtain ⟨r, hr, rfl⟩ := mem_map.mp h
      exact hr

variable (c now f holder incomingKeys locallyStoredKeys closestPeers) in
theorem validCandidates_fst :
    ∃ initialReplicates,
      (f.validCandidates c now holder incomingKeys locallyStoredKeys closestPeers).1 =
        { f with initialReplicates } := by
  by_cases htrust : f.isPeerTrustworthy holder = some false
  · rw [validCandidates_of_untrustworthy htrust]
    exact ⟨f.initialReplicates, rfl⟩
  · rw [validCandidates_reports htrust]
    exact ⟨_, rfl⟩

/-! ### Scheduling -/

theorem mem_failedHolders :
    peer ∈ f.failedHolders now ↔
      ∃ k timeOut, f.onGoingFetches.lookup k = some (peer, timeOut) ∧ timeOut < now := by
  have hfold : ∀ (l : List (Sigma fun _ : RecordKey × ValidationType => PeerId × Time))
      (holders : Table PeerId RecordKey),
      peer ∈ l.foldl (fun holders e => holders.insert e.2.1 e.1.1) holders ↔
        peer ∈ holders ∨ ∃ e ∈ l, e.2.1 = peer := by
    intro l
    induction l with
    | nil => simp
    | cons e l ih =>
      intro holders
      rw [foldl_cons, ih, AList.mem_insert, exists_mem_cons_iff, or_assoc, or_left_comm, eq_comm]
  rw [failedHolders, hfold]
  constructor
  · rintro (h | ⟨⟨k, peer', timeOut⟩, hmem, rfl⟩)
    · exact absurd h (AList.notMem_empty peer)
    · obtain ⟨hmem, hlate⟩ := mem_filter.mp hmem
      exact ⟨k, timeOut, AList.mem_lookup_iff.mpr hmem, of_decide_eq_true hlate⟩
  · rintro ⟨k, timeOut, hlookup, hlate⟩
    refine .inr ⟨⟨k, peer, timeOut⟩, mem_filter.mpr ⟨?_, decide_eq_true hlate⟩, rfl⟩
    exact AList.mem_lookup_iff.mp hlookup

variable {onGoing : Table (RecordKey × ValidationType) (PeerId × Time)}

variable {onGoing' : Table (RecordKey × ValidationType) (PeerId × Time)}
  {pending started : List PendingKey} {R : PendingKey → PendingKey → Prop} {first : PendingKey}

/-- The entries `started` are being fetched now, as many as there was room for, and nothing that
comes after one that waits and could be fetched. -/
structure Fills (now : Time) (R : PendingKey → PendingKey → Prop) (pending : List PendingKey)
    (onGoing onGoing' : Table (RecordKey × ValidationType) (PeerId × Time))
    (started : List PendingKey) : Prop where
  waited : ∀ k ∈ started, k ∈ pending
  inserted : onGoing' = started.foldl
    (fun m k => m.insert (k.1, k.2.1) (k.2.2, now + fetchTimeout)) onGoing
  fetching : ∀ k, k ∈ onGoing' ↔ k ∈ onGoing ∨ ∃ holder, (k.1, k.2, holder) ∈ started
  distinct : (started.map fun k => (k.1, k.2.1)).Nodup
  fresh : ∀ k ∈ started, (k.1, k.2.1) ∉ onGoing
  bounded : onGoing'.entries.length ≤ max maxParallelFetch onGoing.entries.length
  inOrder : ∀ k ∈ pending, (k.1, k.2.1) ∉ onGoing' → ∀ s ∈ started, R s k

theorem Fills.none : Fills now R pending onGoing onGoing [] :=
  ⟨by simp, rfl, by simp, by simp, by simp, le_max_right _ _, by simp⟩

theorem Fills.take
    (hfree : onGoing.entries.length < maxParallelFetch ∧ (first.1, first.2.1) ∉ onGoing)
    (hfirst : ∀ k ∈ pending, R first k)
    (h : Fills now R pending
      (onGoing.insert (first.1, first.2.1) (first.2.2, now + fetchTimeout)) onGoing' started) :
    Fills now R (first :: pending) onGoing onGoing' (first :: started) where
  waited := forall_mem_cons.mpr
    ⟨mem_cons_self, fun k hk => mem_cons_of_mem _ (h.waited k hk)⟩
  inserted := h.inserted
  fetching k := by
    have hkey : k = (first.1, first.2.1) ↔ ∃ holder, (k.1, k.2, holder) = first := by
      obtain ⟨k₁, k₂⟩ := k
      obtain ⟨key, t, holder⟩ := first
      simp
    rw [h.fetching, AList.mem_insert, hkey]
    simp only [mem_cons, exists_or]
    tauto
  distinct := by
    refine nodup_cons.mpr ⟨fun hmem => ?_, h.distinct⟩
    obtain ⟨k, hk, hsame⟩ := mem_map.mp hmem
    exact h.fresh k hk (hsame ▸ (AList.mem_insert _).mpr (.inl rfl))
  fresh := forall_mem_cons.mpr
    ⟨hfree.2, fun k hk hmem => h.fresh k hk ((AList.mem_insert _).mpr (.inr hmem))⟩
  bounded := by
    have hle := h.bounded
    rw [AList.entries_insert_of_notMem hfree.2, length_cons] at hle
    omega
  inOrder k hk hleft := by
    rcases mem_cons.mp hk with rfl | hk
    · exact absurd ((h.fetching _).mpr (.inl ((AList.mem_insert _).mpr (.inl rfl)))) hleft
    · exact forall_mem_cons.mpr ⟨hfirst k hk, h.inOrder k hk hleft⟩

theorem Fills.skip (hfirst : (first.1, first.2.1) ∈ onGoing)
    (h : Fills now R pending onGoing onGoing' started) :
    Fills now R (first :: pending) onGoing onGoing' started :=
  { h with
    waited := fun k hk => mem_cons_of_mem _ (h.waited k hk)
    inOrder := forall_mem_cons.mpr
      ⟨fun hleft => absurd ((h.fetching _).mpr (.inl hfirst)) hleft, h.inOrder⟩ }

theorem fills_startFetches {sorted : List PendingKey} (hsorted : sorted.Pairwise R) :
    Fills now R sorted onGoing (startFetches now sorted onGoing).1
      (startFetches now sorted onGoing).2 := by
  induction sorted generalizing onGoing with
  | nil => exact .none
  | cons first sorted ih =>
    obtain ⟨hfirst, hrest⟩ := pairwise_cons.mp hsorted
    rw [startFetches]
    by_cases hfree : onGoing.entries.length < maxParallelFetch ∧ (first.1, first.2.1) ∉ onGoing
    · simp only [if_pos hfree]
      split
      · exact .take hfree hfirst .none
      · exact .take hfree hfirst (ih hrest)
    · simp only [if_neg hfree]
      split
      · exact .none
      · refine .skip ?_ (ih hrest)
        simp_all

theorem mem_foldl_erase {α β : Type} [DecidableEq α] {l : List α} {m : Table α β} {a : α} :
    a ∈ l.foldl (fun m b => m.erase b) m ↔ a ∈ m ∧ a ∉ l := by
  induction l generalizing m with
  | nil => simp
  | cons b l ih =>
    rw [foldl_cons, ih, AList.mem_erase, mem_cons]
    tauto

/-- Entries that waited are being fetched, and nothing else has changed. -/
structure Started (f f' : ReplicationFetcher) (started : List PendingKey) : Prop where
  frame : f' = { f with onGoingFetches := f'.onGoingFetches, toBeFetched := f'.toBeFetched }
  waited : ∀ k ∈ started, k ∈ f.toBeFetched
  waiting : ∀ k, k ∈ f'.toBeFetched ↔ k ∈ f.toBeFetched ∧ k ∉ started
  fetching : ∀ k, k ∈ f'.onGoingFetches ↔
    k ∈ f.onGoingFetches ∨ ∃ holder, (k.1, k.2, holder) ∈ started

theorem Started.refl (f : ReplicationFetcher) : Started f f [] :=
  ⟨rfl, by simp, by simp, by simp⟩

/-- Closer to our own address, or as close. -/
abbrev NotFarther (c : Crypto) (f : ReplicationFetcher) (a b : PendingKey) : Prop :=
  f.distance c (.recordKey a.1) ≤ f.distance c (.recordKey b.1)

theorem nextKeysToFetch_cases (c : Crypto) (rank : PendingKey → Nat) (now : Time)
    (f : ReplicationFetcher) :
    ∃ started, (f.nextKeysToFetch c rank now).2 = started.map (fun k => (k.2.2, k.1)) ∧
      Started (f.pruneExpiredKeysAndSlowNodes now) (f.nextKeysToFetch c rank now).1 started ∧
      Fills now (f.NotFarther c) (f.pruneExpiredKeysAndSlowNodes now).toBeFetched.keys
        (f.pruneExpiredKeysAndSlowNodes now).onGoingFetches
        (f.nextKeysToFetch c rank now).1.onGoingFetches started := by
  unfold nextKeysToFetch
  dsimp only
  split
  · exact ⟨[], rfl, .refl _, .none⟩
  split
  · exact ⟨[], rfl, .refl _, .none⟩
  have hsorted := pairwise_insertionSort (f.NotFarther c)
    ((f.pruneExpiredKeysAndSlowNodes now).toBeFetched.keys.insertionSort fun a b => rank a ≤ rank b)
  have h : Fills now (f.NotFarther c) _ (f.pruneExpiredKeysAndSlowNodes now).onGoingFetches _ _ :=
    fills_startFetches hsorted
  have hwaited := fun k hk => (mem_insertionSort _).mp ((mem_insertionSort _).mp (h.waited k hk))
  exact ⟨_, rfl, ⟨rfl, hwaited, fun k => mem_foldl_erase, h.fetching⟩, { h with
      waited := hwaited
      inOrder := fun k hk =>
        h.inOrder k ((mem_insertionSort _).mpr ((mem_insertionSort _).mpr hk)) }⟩

/-- **What `next_keys_to_fetch` does** after pruning: it starts to fetch entries that wait. -/
theorem exists_started (c : Crypto) (rank : PendingKey → Nat) (now : Time)
    (f : ReplicationFetcher) :
    ∃ started, Started (f.pruneExpiredKeysAndSlowNodes now) (f.nextKeysToFetch c rank now).1
      started :=
  (nextKeysToFetch_cases c rank now f).imp fun _ h => h.2.1

/-- **The next keys to fetch**: what is returned waited and is being fetched now, each record from
one holder and none that was being fetched, within the limit, and nothing is left that is closer. -/
theorem nextKeysToFetch_fetches (c : Crypto) (rank : PendingKey → Nat) (now : Time)
    (f : ReplicationFetcher) :
    let pruned := f.pruneExpiredKeysAndSlowNodes now
    let next := f.nextKeysToFetch c rank now
    next.1.onGoingFetches.entries.length ≤
      max maxParallelFetch pruned.onGoingFetches.entries.length ∧
    ∃ started : List PendingKey, next.2 = started.map (fun k => (k.2.2, k.1)) ∧
      next.1.onGoingFetches = started.foldl
        (fun m k => m.insert (k.1, k.2.1) (k.2.2, now + fetchTimeout)) pruned.onGoingFetches ∧
      (started.map fun k => (k.1, k.2.1)).Nodup ∧
      (∀ k ∈ started, k ∈ pruned.toBeFetched ∧ k ∉ next.1.toBeFetched ∧
        (k.1, k.2.1) ∉ pruned.onGoingFetches) ∧
      ∀ k ∈ pruned.toBeFetched, (k.1, k.2.1) ∉ next.1.onGoingFetches →
        ∀ s ∈ started, ¬ f.distance c (.recordKey k.1) < f.distance c (.recordKey s.1) := by
  obtain ⟨started, hreturned, hstarted, hfills⟩ := nextKeysToFetch_cases c rank now f
  refine ⟨hfills.bounded, started, hreturned, hfills.inserted, hfills.distinct, fun k hk => ?_,
    fun k hk hleft s hs => not_lt.mpr (hfills.inOrder k hk hleft s hs)⟩
  exact ⟨hstarted.waited k hk, fun hleft => ((hstarted.waiting k).mp hleft).2 hk, hfills.fresh k hk⟩

section Frame

variable (c : Crypto) (rank : PendingKey → Nat) (now : Time) (f : ReplicationFetcher)

/-- Who fetches, how far away, and from whom is the same. -/
structure SameSetting (f f' : ReplicationFetcher) : Prop where
  selfPeerId : f'.selfPeerId = f.selfPeerId
  farthest : f'.farthestAcceptableDistance = f.farthestAcceptableDistance
  peersScores : f'.peersScores = f.peersScores

theorem nextKeysToFetch_setting : SameSetting f (f.nextKeysToFetch c rank now).1 := by
  obtain ⟨_, h⟩ := exists_started c rank now f
  rw [h.frame]
  exact ⟨rfl, rfl, rfl⟩

theorem nextKeysToFetch_initialReplicates :
    (f.nextKeysToFetch c rank now).1.initialReplicates =
      (f.pruneExpiredKeysAndSlowNodes now).initialReplicates := by
  obtain ⟨_, h⟩ := exists_started c rank now f
  rw [h.frame]

end Frame

/-! ### Adding keys -/

theorem lookup_toBeFetched_removeOutdated {k : PendingKey} :
    (f.removeOutdated now locallyStoredKeys).toBeFetched.lookup k =
      (f.toBeFetched.lookup k).filter fun timeOut =>
        notStored locallyStoredKeys k.1 k.2.1 && decide (now < timeOut) := by
  simp only [removeOutdated, removeStoredKeys, Table.lookup_retain, Option.filter_filter,
    Bool.and_comm]

theorem mem_queue {toBeFetched : Table PendingKey Time} {k : PendingKey} :
    k ∈ queue c now candidates toBeFetched ↔
      k ∈ toBeFetched ∨
        ∃ candidate ∈ candidates,
          k = (candidate.2.1.toRecordKey c, candidate.2.2, candidate.1) := by
  unfold queue
  induction candidates generalizing toBeFetched with
  | nil => simp
  | cons candidate candidates ih =>
    rw [foldl_cons, ih, Table.mem_orInsert, exists_mem_cons_iff, or_assoc, or_left_comm]

theorem mem_fetchFresh :
    k ∈ (fetchFresh c now holder candidates onGoing).1 ↔
      k ∈ onGoing ∨
        ∃ candidate ∈ candidates, k = (candidate.2.1.toRecordKey c, candidate.2.2) := by
  induction candidates generalizing onGoing with
  | nil => simp [fetchFresh]
  | cons candidate candidates ih =>
    rw [fetchFresh, exists_mem_cons_iff]
    by_cases hmem : (candidate.2.1.toRecordKey c, candidate.2.2) ∈ onGoing
    · rw [if_pos hmem, ih, or_left_comm]
      exact (or_iff_right_of_imp fun h => .inl (h ▸ hmem)).symm
    · rw [if_neg hmem, ih, AList.mem_insert, or_assoc, or_left_comm]

/-- The fetcher with the candidates of a report in the queue, before any of them is fetched. -/
def queued (c : Crypto) (now : Time) (f : ReplicationFetcher) (holder : PeerId)
    (incomingKeys : List Report) (locallyStoredKeys : Table RecordKey IndexEntry)
    (closestPeers : List NetworkAddress) : ReplicationFetcher :=
  let (f', candidates) :=
    f.validCandidates c now holder incomingKeys locallyStoredKeys closestPeers
  let f'' := f'.removeOutdated now locallyStoredKeys
  { f'' with toBeFetched := queue c now candidates f''.toBeFetched }

theorem addKeys_report :
    (f.addKeys c rank now holder incomingKeys locallyStoredKeys false closestPeers).1 =
      ((f.queued c now holder incomingKeys locallyStoredKeys closestPeers).nextKeysToFetch
        c rank now).1 := rfl

/-- The fetcher with fresh records being fetched, before it turns to others. -/
def freshened (c : Crypto) (now : Time) (f : ReplicationFetcher) (holder : PeerId)
    (incomingKeys : List Report) (locallyStoredKeys : Table RecordKey IndexEntry) :
    ReplicationFetcher :=
  let f' := f.removeOutdated now locallyStoredKeys
  { f' with
    onGoingFetches := (fetchFresh c now holder (incomingKeys.map fun report => (holder, report))
      f'.onGoingFetches).1 }

theorem queued_eq :
    f.queued c now holder incomingKeys locallyStoredKeys closestPeers =
      { f.removeOutdated now locallyStoredKeys with
        toBeFetched := queue c now
          (f.validCandidates c now holder incomingKeys locallyStoredKeys closestPeers).2
          (f.removeOutdated now locallyStoredKeys).toBeFetched
        initialReplicates := (f.validCandidates c now holder incomingKeys locallyStoredKeys
          closestPeers).1.initialReplicates } := by
  obtain ⟨initialReplicates, hframe⟩ :=
    validCandidates_fst c now f holder incomingKeys locallyStoredKeys closestPeers
  unfold queued
  generalize f.validCandidates c now holder incomingKeys locallyStoredKeys closestPeers = result
    at hframe ⊢
  obtain ⟨f', candidates⟩ := result
  obtain rfl := hframe
  rfl

theorem lookup_onGoingFetches_queued :
    (f.queued c now holder incomingKeys locallyStoredKeys closestPeers).onGoingFetches.lookup k =
      (f.onGoingFetches.lookup k).filter fun _ => notStored locallyStoredKeys k.1 k.2 := by
  rw [queued_eq]
  exact Table.lookup_retain

theorem mem_toBeFetched_queued {k : PendingKey} :
    k ∈ (f.queued c now holder incomingKeys locallyStoredKeys closestPeers).toBeFetched ↔
      (∃ timeOut, f.toBeFetched.lookup k = some timeOut ∧
        notStored locallyStoredKeys k.1 k.2.1 = true ∧ now < timeOut) ∨
      ∃ candidate ∈ (f.validCandidates c now holder incomingKeys locallyStoredKeys closestPeers).2,
        k = (candidate.2.1.toRecordKey c, candidate.2.2, candidate.1) := by
  rw [queued_eq, mem_queue, ← AList.lookup_isSome, lookup_toBeFetched_removeOutdated,
    Option.isSome_iff_exists]
  simp only [Option.filter_eq_some_iff, Bool.and_eq_true, decide_eq_true_eq]

/-! ### What calls leave alone -/

theorem addPeerScores_frame (rank : PeerId → Nat) (now : Time) (f : ReplicationFetcher)
    (scores : List (PeerId × Bool)) :
    f.addPeerScores rank now scores =
      { f with peersScores := (f.addPeerScores rank now scores).peersScores } := by
  unfold addPeerScores
  dsimp only
  split
  · split <;> rfl
  · rfl

theorem setFarthestOnFull_frame (c : Crypto) (f : ReplicationFetcher)
    (farthestIn : Option RecordKey) :
    f.setFarthestOnFull c farthestIn =
      { f with
        toBeFetched := (f.setFarthestOnFull c farthestIn).toBeFetched
        onGoingFetches := (f.setFarthestOnFull c farthestIn).onGoingFetches
        farthestAcceptableDistance :=
          (f.setFarthestOnFull c farthestIn).farthestAcceptableDistance } := by
  unfold setFarthestOnFull
  cases farthestIn with
  | none => rfl
  | some key =>
    dsimp only
    split <;> rfl

theorem run_setting (call : FetcherCall) :
    SameSetting f (call.run c now f) ∨ (∃ rank scores, call = .addPeerScores rank scores) ∨
      ∃ farthestIn, call = .setFarthestOnFull farthestIn := by
  cases call with
  | addKeys rank holder incomingKeys locallyStoredKeys isFreshReplicate closestKPeers =>
    cases isFreshReplicate with
    | true =>
      obtain ⟨hself, hfarthest, hscores⟩ := nextKeysToFetch_setting c rank now
        (f.freshened c now holder incomingKeys locallyStoredKeys)
      exact .inl ⟨hself, hfarthest, hscores⟩
    | false =>
      obtain ⟨hself, hfarthest, hscores⟩ := nextKeysToFetch_setting c rank now
        (f.queued c now holder incomingKeys locallyStoredKeys closestKPeers)
      rw [queued_eq] at hself hfarthest hscores
      rw [FetcherCall.run, addKeys_report, queued_eq]
      exact .inl ⟨hself, hfarthest, hscores⟩
  | addPeerScores rank scores => exact .inr (.inl ⟨rank, scores, rfl⟩)
  | setReplicationDistanceRange distanceRange => exact .inl ⟨rfl, rfl, rfl⟩
  | setFarthestOnFull farthestIn => exact .inr (.inr ⟨farthestIn, rfl⟩)
  | notifyAboutNewPut rank newPut recordType | notifyFetchEarlyCompleted rank keyIn recordType =>
    obtain ⟨hself, hfarthest, hscores⟩ := nextKeysToFetch_setting c rank now _
    exact .inl ⟨hself, hfarthest, hscores⟩
  | nextKeysToFetch rank => exact .inl (nextKeysToFetch_setting c rank now f)

theorem run_selfPeerId (call : FetcherCall) : (call.run c now f).selfPeerId = f.selfPeerId := by
  rcases run_setting call with h | ⟨rank, scores, rfl⟩ | ⟨farthestIn, rfl⟩
  · exact h.selfPeerId
  · rw [FetcherCall.run, addPeerScores_frame]
  · rw [FetcherCall.run, setFarthestOnFull_frame]

theorem run_farthestAcceptableDistance {call : FetcherCall}
    (h : ∀ farthestIn, call ≠ .setFarthestOnFull farthestIn) :
    (call.run c now f).farthestAcceptableDistance = f.farthestAcceptableDistance := by
  rcases run_setting call with hsame | ⟨rank, scores, rfl⟩ | ⟨farthestIn, rfl⟩
  · exact hsame.farthest
  · rw [FetcherCall.run, addPeerScores_frame]
  · exact absurd rfl (h farthestIn)

theorem run_peersScores {call : FetcherCall}
    (h : ∀ rank scores, call ≠ .addPeerScores rank scores) :
    (call.run c now f).peersScores = f.peersScores := by
  rcases run_setting call with hsame | ⟨rank, scores, rfl⟩ | ⟨farthestIn, rfl⟩
  · exact hsame.peersScores
  · exact absurd rfl (h rank scores)
  · rw [FetcherCall.run, setFarthestOnFull_frame]

end Autonomi.ReplicationFetcher
