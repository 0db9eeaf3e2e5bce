/-
Who can bring a peer into the closest peers.

A peer that was not a candidate is selected if it was seen often, and being seen often
is meant to say that many peers know of it.  What is counted, though, is how often it is
named, and a response may name a peer many times.
-/
import Autonomi.Protocol.PeerSelection

namespace Autonomi

open Lib List

variable {ε : Type} (c : Crypto)

/-! ### What the responses say -/

def names (peer : PeerId) (entry : NetworkAddress × List Multiaddr) : Bool :=
  entry.1.asPeerId c = some peer

def reported (result : PeerId × Except ε PeersList) : PeersList :=
  match result.2 with
  | .ok peersList => peersList
  | .error _ => []

variable (results : List (PeerId × Except ε PeersList))

def mentions (peer : PeerId) : Nat :=
  (results.flatMap reported).countP (names c peer)

def responses (peer : PeerId) : Nat :=
  results.countP fun result => result.1 = peer && result.2.isOk

def namers (peer : PeerId) : Finset PeerId :=
  ((results.filter fun result => (reported result).any (names c peer)).map Prod.fst).toFinset

def Addressed (peer : PeerId) : Prop :=
  ∃ entry ∈ results.flatMap reported, names c peer entry = true ∧ entry.2 ≠ []

/-- Peers that were not candidates are selected only if more than `threshold` responders named
them. -/
def OnlyByMajority (threshold : Nat) (candidates : List PeerInfo)
    (results : List (PeerId × Except ε PeersList)) (selected : List PeerInfo) : Prop :=
  ∀ peer ∈ selected, peer.peerId ∉ candidates.map PeerInfo.peerId →
    threshold < (namers c results peer.peerId).card

instance (threshold : Nat) (candidates : List PeerInfo)
    (results : List (PeerId × Except ε PeersList)) (selected : List PeerInfo) :
    Decidable (OnlyByMajority c threshold candidates results selected) :=
  inferInstanceAs (Decidable (∀ peer ∈ selected, peer.peerId ∉ candidates.map PeerInfo.peerId →
    threshold < (namers c results peer.peerId).card))

/-- Nothing is gained by naming a peer twice: the candidates seen often fill the result, or
every other peer named often, with an address, is named by as many. -/
def RepeatsHarmless (n threshold : Nat) (candidates : List PeerInfo)
    (results : List (PeerId × Except ε PeersList)) : Prop :=
  n ≤ (candidates.countP fun peer =>
      threshold < responses results peer.peerId + mentions c results peer.peerId) ∨
    ∀ peer, peer ∉ candidates.map PeerInfo.peerId → threshold < mentions c results peer →
      Addressed c results peer → threshold < (namers c results peer).card

/-! ### What is counted -/

namespace Sightings

variable {c} {extend : List Multiaddr → List Multiaddr → List Multiaddr} {seen : Sightings}
  {peer : PeerId}

variable {entry : NetworkAddress × List Multiaddr}

theorem count_addEntry :
    (seen.addEntry c extend entry).peerCounts.count peer
      = seen.peerCounts.count peer + if names c peer entry then 1 else 0 := by
  unfold addEntry names
  cases hnamed : entry.1.asPeerId c with
  | none => simp
  | some named =>
    rw [Table.count_increment]
    simp

theorem count_foldl_addEntry (entries : PeersList) : ∀ {seen : Sightings},
    (entries.foldl (addEntry c extend) seen).peerCounts.count peer
      = seen.peerCounts.count peer + entries.countP (names c peer) := by
  induction entries with
  | nil => simp
  | cons entry entries ih =>
    intro seen
    rw [foldl_cons, ih, count_addEntry, countP_cons]
    omega

variable {result : PeerId × Except ε PeersList}

theorem count_addResponse :
    (seen.addResponse c extend result).peerCounts.count peer
      = seen.peerCounts.count peer + (if result.1 = peer && result.2.isOk then 1 else 0)
        + (reported result).countP (names c peer) := by
  unfold addResponse reported
  cases result.2 with
  | error e => simp [Except.isOk, Except.toBool]
  | ok peersList =>
    rw [count_foldl_addEntry, Table.count_increment]
    simp [Except.isOk, Except.toBool]

variable {results : List (PeerId × Except ε PeersList)}

theorem count_ofResults :
    (ofResults c extend results).peerCounts.count peer
      = responses results peer + mentions c results peer := by
  have hrun : ∀ (results : List (PeerId × Except ε PeersList)) (seen : Sightings),
      (results.foldl (addResponse c extend) seen).peerCounts.count peer
        = seen.peerCounts.count peer + responses results peer + mentions c results peer := by
    intro results
    induction results with
    | nil => simp [mentions, responses]
    | cons result results ih =>
      intro seen
      rw [foldl_cons, ih, count_addResponse]
      simp only [mentions, responses, flatMap_cons, countP_append, countP_cons]
      omega
  unfold ofResults
  rw [hrun results none]
  simp [none, Table.count_empty]

theorem mem_popularPeerIds {threshold : Nat} :
    peer ∈ seen.popularPeerIds threshold ↔ threshold < seen.peerCounts.count peer := by
  unfold popularPeerIds
  rw [Table.lt_count_iff]
  simp only [mem_map, mem_filter, decide_eq_true_eq, and_assoc]

/-! ### The addresses -/

theorem addrsOf_addEntry :
    (seen.addEntry c extend entry).addrsOf peer
      = if names c peer entry then extend (seen.addrsOf peer) entry.2 else seen.addrsOf peer := by
  unfold addEntry names
  cases hnamed : entry.1.asPeerId c with
  | none => simp
  | some named =>
    by_cases h : named = peer
    · subst h
      simp [addrsOf]
    · simp [addrsOf, AList.lookup_insert_ne (Ne.symm h), h]

/-- Nothing is lost when addresses are added. -/
def Keeps (extend : List Multiaddr → List Multiaddr → List Multiaddr) : Prop :=
  ∀ known more, extend known more = [] ↔ known = [] ∧ more = []

theorem addrsOf_foldl_addEntry (hkeeps : Keeps extend) (entries : PeersList) :
    ∀ {seen : Sightings}, (entries.foldl (addEntry c extend) seen).addrsOf peer ≠ [] ↔
      seen.addrsOf peer ≠ [] ∨ ∃ entry ∈ entries, names c peer entry = true ∧ entry.2 ≠ [] := by
  induction entries with
  | nil => simp
  | cons entry entries ih =>
    intro seen
    rw [foldl_cons, ih, addrsOf_addEntry]
    simp only [mem_cons, exists_eq_or_imp, ← or_assoc]
    by_cases hnames : names c peer entry = true
    · rw [if_pos hnames, Ne, hkeeps, not_and_or]
      simp [hnames]
    · simp [hnames]

theorem addrsOf_addResponse (hkeeps : Keeps extend) :
    (seen.addResponse c extend result).addrsOf peer ≠ [] ↔
      seen.addrsOf peer ≠ [] ∨
        ∃ entry ∈ reported result, names c peer entry = true ∧ entry.2 ≠ [] := by
  unfold addResponse reported
  cases result.2 with
  | error e => simp
  | ok peersList =>
    rw [addrsOf_foldl_addEntry hkeeps]
    rfl

theorem addrsOf_ofResults (hkeeps : Keeps extend) :
    (ofResults c extend results).addrsOf peer ≠ [] ↔ Addressed c results peer := by
  have hrun : ∀ (results : List (PeerId × Except ε PeersList)) (seen : Sightings),
      (results.foldl (addResponse c extend) seen).addrsOf peer ≠ [] ↔
        seen.addrsOf peer ≠ [] ∨ Addressed c results peer := by
    intro results
    induction results with
    | nil => simp [Addressed]
    | cons result results ih =>
      intro seen
      rw [foldl_cons, ih, addrsOf_addResponse hkeeps, or_assoc]
      simp only [Addressed, flatMap_cons, mem_append, or_and_right, exists_or]
  unfold ofResults
  rw [hrun]
  simp [none, addrsOf]

end Sightings

theorem keeps_extendSet : Sightings.Keeps extendSet := by
  intro known more
  unfold extendSet
  induction more generalizing known with
  | nil => simp
  | cons address more ih =>
    rw [foldl_cons, ih]
    simp [ne_nil_of_mem (mem_insert_self)]

theorem keeps_append : Sightings.Keeps (· ++ ·) := fun _ _ => append_eq_nil_iff

/-! ### What is selected -/

section Select

variable {c} {addr : NetworkAddress} {n threshold : Nat} {candidates : List PeerInfo}
  {seen : Sightings} {version : VersionAnswers}

theorem perm_sortByDistance (peers : List PeerInfo) :
    (sortByDistance c addr peers).Perm peers :=
  perm_insertionSort _ _

variable {peers : List PeerInfo} {peer : PeerInfo}

theorem mem_sortByDistance : peer ∈ sortByDistance c addr peers ↔ peer ∈ peers :=
  (perm_sortByDistance peers).mem_iff

theorem pick_eq (peers : List PeerInfo) : ∀ {verified : List PeerInfo},
    pick n verified peers = verified ++ peers.take (n - verified.length) := by
  induction peers with
  | nil => simp [pick]
  | cons peer peers ih =>
    intro verified
    unfold pick
    by_cases hfull : n ≤ verified.length
    · rw [if_pos hfull, Nat.sub_eq_zero_of_le hfull, take_zero, append_nil]
    · have hroom : n - verified.length = (n - (verified ++ [peer]).length) + 1 := by
        rw [length_append, length_singleton]
        omega
      rw [if_neg hfull, ih, hroom, append_assoc]
      rfl

/-- With no room left nothing is picked, so the test before a tier changes nothing. -/
theorem pick_if (verified peers : List PeerInfo) :
    (if verified.length < n then pick n verified peers else verified) = pick n verified peers := by
  by_cases hroom : verified.length < n
  · rw [if_pos hroom]
  · rw [if_neg hroom, pick_eq, Nat.sub_eq_zero_of_le (not_lt.mp hroom), take_zero, append_nil]

variable {verified : List PeerInfo}

theorem mem_of_mem_pick (h : peer ∈ pick n verified peers) :
    peer ∈ verified ∨ verified.length < n ∧ peer ∈ peers := by
  rw [pick_eq, mem_append] at h
  rcases h with hverified | htaken
  · exact .inl hverified
  · refine .inr ⟨?_, mem_of_mem_take htaken⟩
    by_contra hfull
    rw [Nat.sub_eq_zero_of_le (not_lt.mp hfull)] at htaken
    cases htaken

theorem sublist_pick (verified peers : List PeerInfo) : verified.Sublist
    (pick n verified peers) := by
  rw [pick_eq]
  exact sublist_append_left _ _

theorem pick_eq_append (h : (pick n verified peers).length < n) :
    pick n verified peers = verified ++ peers := by
  rw [pick_eq, length_append, length_take] at h
  rw [pick_eq, take_of_length_le (by omega)]

variable (c addr n threshold candidates seen version)

def throughTier2 : List PeerInfo :=
  pick n (pick n [] (tier1 c addr candidates (seen.popularPeerIds threshold)))
    (tier2 c addr candidates (seen.popularPeerIds threshold) seen version)

/-- The peer is farther than all that were seen often, and there are some. -/
def farOut (peer : PeerId) : Bool :=
  ((seen.popularPeerIds threshold).map (getDistance c addr)).max?.any fun farthestPopular =>
    farthestPopular < getDistance c addr peer

def throughTier3 : List PeerInfo :=
  let verified := throughTier2 c addr n threshold candidates seen version
  pick n verified (unselected c addr candidates verified (farOut c addr threshold seen))

theorem selectPeers_eq : selectPeers c addr n threshold candidates seen version =
    pick n (throughTier3 c addr n threshold candidates seen version)
      (tier4 c addr candidates (throughTier3 c addr n threshold candidates seen version)) := by
  unfold selectPeers
  simp only [pick_if]
  unfold throughTier3 throughTier2 farOut
  cases ((seen.popularPeerIds threshold).map (getDistance c addr)).max? with
  | none => simp [unselected, sortByDistance, pick]
  | some farthestPopular => rfl

variable {c addr n threshold candidates seen version}

variable {popular : List PeerId}

theorem mem_tier1 :
    peer ∈ tier1 c addr candidates popular ↔ peer ∈ candidates ∧ peer.peerId ∈ popular := by
  simp [tier1, mem_sortByDistance]

theorem length_tier1 :
    (tier1 c addr candidates popular).length
      = (candidates.filter fun peer => popular.contains peer.peerId).length :=
  (perm_sortByDistance _).length_eq

theorem mem_tier2 :
    peer ∈ tier2 c addr candidates popular seen version ↔
      peer.peerId ∈ popular ∧ peer.peerId ∉ candidates.map PeerInfo.peerId ∧
        peer.addrs = seen.addrsOf peer.peerId ∧ peer.addrs ≠ [] ∧ version.answers peer = true := by
  unfold tier2
  simp only [mem_sortByDistance, mem_filter, (version.arrival_perm _).mem_iff, mem_map]
  constructor
  · rintro ⟨⟨⟨id, ⟨hpopular, hcandidate⟩, rfl⟩, haddrs⟩, hversion⟩
    refine ⟨hpopular, ?_, rfl, ?_, hversion⟩
    · simpa using hcandidate
    · simpa using haddrs
  · rintro ⟨hpopular, hcandidate, heq, haddrs, hversion⟩
    refine ⟨⟨⟨peer.peerId, ⟨hpopular, ?_⟩, ?_⟩, ?_⟩, hversion⟩
    · simpa using hcandidate
    · rw [← heq]
    · simpa using haddrs

theorem mem_unselected {test : PeerId → Bool} :
    peer ∈ unselected c addr candidates verified test ↔
      peer ∈ candidates ∧ peer.peerId ∉ verified.map PeerInfo.peerId ∧ test peer.peerId = true := by
  simp [unselected, mem_sortByDistance]

theorem mem_selectPeers (h : peer ∈ selectPeers c addr n threshold candidates seen version) :
    peer ∈ candidates ∨
      (tier1 c addr candidates (seen.popularPeerIds threshold)).length < n ∧
        peer ∈ tier2 c addr candidates (seen.popularPeerIds threshold) seen version := by
  rw [selectPeers_eq] at h
  rcases mem_of_mem_pick h with h | ⟨-, h⟩
  · rcases mem_of_mem_pick h with h | ⟨-, h⟩
    · rcases mem_of_mem_pick h with h | ⟨hroom, h⟩
      · rcases mem_of_mem_pick h with h | ⟨-, h⟩
        · cases h
        · exact .inl (mem_tier1.mp h).1
      · rw [pick_eq, nil_append, length_nil, length_take] at hroom
        exact .inr ⟨by omega, h⟩
    · exact .inl (mem_unselected.mp h).1
  · exact .inl (mem_unselected.mp h).1

theorem sublist_throughTier3 :
    (throughTier2 c addr n threshold candidates seen version).Sublist
      (throughTier3 c addr n threshold candidates seen version) :=
  sublist_pick _ _

theorem sublist_selectPeers :
    (throughTier3 c addr n threshold candidates seen version).Sublist
      (selectPeers c addr n threshold candidates seen version) := by
  rw [selectPeers_eq]
  exact sublist_pick _ _

theorem exists_selected_of_tier2
    (hroom : (tier1 c addr candidates (seen.popularPeerIds threshold)).length < n)
    (hany : tier2 c addr candidates (seen.popularPeerIds threshold) seen version ≠ []) :
    ∃ peer ∈ tier2 c addr candidates (seen.popularPeerIds threshold) seen version,
      peer ∈ selectPeers c addr n threshold candidates seen version := by
  obtain ⟨peer, rest, htier⟩ := exists_cons_of_ne_nil hany
  refine ⟨peer, by rw [htier]; exact mem_cons_self, ?_⟩
  refine sublist_selectPeers.subset (sublist_throughTier3.subset ?_)
  unfold throughTier2
  rw [htier, pick_eq (peer :: rest), pick_eq (tier1 _ _ _ _), nil_append, length_nil,
    Nat.sub_zero, take_of_length_le hroom.le]
  refine mem_append_right _ ?_
  obtain ⟨room, hlength⟩ := Nat.exists_eq_succ_of_ne_zero (Nat.sub_ne_zero_of_lt hroom)
  rw [hlength]
  exact mem_cons_self

/-! ### There are always enough -/

theorem count_tier1 (h : peer.peerId ∈ popular) :
    (tier1 c addr candidates popular).count peer = candidates.count peer := by
  unfold tier1
  rw [(perm_sortByDistance _).count_eq, count_filter (by simpa using h)]

theorem count_unselected {test : PeerId → Bool} (hnew : peer.peerId ∉ verified.map PeerInfo.peerId)
    (htest : test peer.peerId = true) :
    (unselected c addr candidates verified test).count peer = candidates.count peer := by
  unfold unselected
  rw [(perm_sortByDistance _).count_eq, count_filter (by simpa [htest] using hnew)]

theorem notMem_throughTier2 (hpeer : peer ∈ candidates)
    (hpopular : peer.peerId ∉ seen.popularPeerIds threshold) :
    peer.peerId ∉ (throughTier2 c addr n threshold candidates seen version).map PeerInfo.peerId := by
  intro hmem
  obtain ⟨other, hother, hid⟩ := mem_map.mp hmem
  rcases mem_of_mem_pick hother with hfirst | ⟨-, hsecond⟩
  · rcases mem_of_mem_pick hfirst with hnone | ⟨-, hfirst⟩
    · cases hnone
    · exact hpopular (hid ▸ (mem_tier1.mp hfirst).2)
  · exact (mem_tier2.mp hsecond).2.1 (hid ▸ mem_map_of_mem hpeer)

/-- If there is room at the end, every candidate has been selected, as often as it stands among
the candidates: in the first tier if it was seen often, else in the third or the fourth. -/
theorem count_le_selectPeers
    (hroom : (selectPeers c addr n threshold candidates seen version).length < n)
    (hpeer : peer ∈ candidates) :
    candidates.count peer ≤ (selectPeers c addr n threshold candidates seen version).count peer := by
  have hroom3 : (throughTier3 c addr n threshold candidates seen version).length < n :=
    lt_of_le_of_lt sublist_selectPeers.length_le hroom
  have hroom2 : (throughTier2 c addr n threshold candidates seen version).length < n :=
    lt_of_le_of_lt sublist_throughTier3.length_le hroom3
  by_cases hpopular : peer.peerId ∈ seen.popularPeerIds threshold
  · have hroom1 := lt_of_le_of_lt (sublist_pick _ _).length_le hroom2
    rw [← count_tier1 hpopular, ← nil_append (tier1 _ _ _ _), ← pick_eq_append hroom1]
    exact ((sublist_pick _ _).trans (sublist_throughTier3.trans sublist_selectPeers)).count_le _
  have hnew : peer.peerId ∉
      (throughTier2 c addr n threshold candidates seen version).map PeerInfo.peerId :=
    notMem_throughTier2 hpeer hpopular
  have hthird := pick_eq_append hroom3
  by_cases hfar : farOut c addr threshold seen peer.peerId = true
  · rw [← count_unselected hnew hfar]
    refine le_trans ?_ (sublist_selectPeers.count_le _)
    unfold throughTier3
    rw [hthird, count_append]
    exact Nat.le_add_left _ _
  · have hnew3 : peer.peerId ∉
        (throughTier3 c addr n threshold candidates seen version).map PeerInfo.peerId := by
      intro hmem
      obtain ⟨other, hother, hid⟩ := mem_map.mp hmem
      rcases mem_of_mem_pick hother with hearlier | ⟨-, hthird⟩
      · exact hnew (hid ▸ mem_map_of_mem hearlier)
      · exact hfar (hid ▸ (mem_unselected.mp hthird).2.2)
    have hlast : (tier4 c addr candidates
        (throughTier3 c addr n threshold candidates seen version)).count peer
          = candidates.count peer := count_unselected hnew3 rfl
    rw [selectPeers_eq] at hroom ⊢
    rw [pick_eq_append hroom, count_append, hlast]
    exact Nat.le_add_left _ _

theorem le_length_selectPeers (h : n ≤ candidates.length) :
    n ≤ (selectPeers c addr n threshold candidates seen version).length := by
  by_contra hroom
  have hsubperm : candidates.Subperm (selectPeers c addr n threshold candidates seen version) :=
    subperm_ext_iff.mpr fun peer hpeer => count_le_selectPeers (not_le.mp hroom) hpeer
  exact hroom (h.trans hsubperm.length_le)

/-! ### Who can bring a peer in -/

theorem responses_eq_zero {results : List (PeerId × Except ε PeersList)} {peer : PeerId}
    (hasked : ∀ result ∈ results, result.1 ∈ candidates.map PeerInfo.peerId)
    (h : peer ∉ candidates.map PeerInfo.peerId) : responses results peer = 0 := by
  refine countP_eq_zero.mpr fun result hresult hfrom => h ?_
  rw [Bool.and_eq_true, decide_eq_true_eq] at hfrom
  exact hfrom.1 ▸ hasked result hresult

variable {extend : List Multiaddr → List Multiaddr → List Multiaddr}
  {results : List (PeerId × Except ε PeersList)}

theorem length_tier1_ofResults :
    (tier1 c addr candidates
      ((Sightings.ofResults c extend results).popularPeerIds threshold)).length
      = candidates.countP fun peer =>
          threshold < responses results peer.peerId + mentions c results peer.peerId := by
  rw [length_tier1, countP_eq_length_filter]
  congr 1
  refine filter_congr fun peer _ => ?_
  rw [contains_eq_mem, decide_eq_decide, Sightings.mem_popularPeerIds, Sightings.count_ofResults]

/-- **Peers come in by majority alone just if repeats are harmless.** -/
theorem select_by_majority_iff (c : Crypto) (addr : NetworkAddress) (n threshold : Nat)
    (hkeeps : Sightings.Keeps extend)
    (hasked : ∀ result ∈ results, result.1 ∈ candidates.map PeerInfo.peerId) :
    (∀ version, OnlyByMajority c threshold candidates results
      (selectPeers c addr n threshold candidates (Sightings.ofResults c extend results) version)) ↔
      RepeatsHarmless c n threshold candidates results := by
  constructor
  · intro honly
    by_contra hharm
    obtain ⟨hroom, hrest⟩ := not_or.mp hharm
    push Not at hrest
    obtain ⟨peer, hcandidate, hoften, haddressed, hfew⟩ := hrest
    -- Only this peer tells its version.
    let version : VersionAnswers := ⟨fun info => info.peerId = peer, id, fun _ => .refl _⟩
    have htier : PeerInfo.mk peer ((Sightings.ofResults c extend results).addrsOf peer) ∈
        tier2 c addr candidates ((Sightings.ofResults c extend results).popularPeerIds threshold)
          (Sightings.ofResults c extend results) version := by
      refine mem_tier2.mpr ⟨?_, hcandidate, rfl, ?_, by simp [version]⟩
      · rw [Sightings.mem_popularPeerIds, Sightings.count_ofResults]
        exact Nat.lt_add_left _ hoften
      · exact (Sightings.addrsOf_ofResults hkeeps).mpr haddressed
    obtain ⟨other, hother, hselected⟩ := exists_selected_of_tier2
      (by rw [length_tier1_ofResults]; exact not_le.mp hroom) (ne_nil_of_mem htier)
    obtain ⟨-, hnotcandidate, -, -, hversion⟩ := mem_tier2.mp hother
    have hsame : other.peerId = peer := of_decide_eq_true hversion
    have hmajority := honly version other hselected hnotcandidate
    rw [hsame] at hmajority
    exact absurd hmajority (not_lt.mpr hfew)
  · intro hharmless version peer hselected hcandidate
    rcases mem_selectPeers hselected with hmem | ⟨hroom, htier⟩
    · exact absurd (mem_map_of_mem hmem) hcandidate
    · rw [length_tier1_ofResults] at hroom
      obtain ⟨hpopular, -, haddrs, hne, -⟩ := mem_tier2.mp htier
      rw [Sightings.mem_popularPeerIds, Sightings.count_ofResults,
        responses_eq_zero hasked hcandidate, Nat.zero_add] at hpopular
      rcases hharmless with hfull | hrest
      · exact absurd hroom (not_lt.mpr hfull)
      · refine hrest _ hcandidate hpopular ?_
        rw [haddrs] at hne
        exact (Sightings.addrsOf_ofResults hkeeps).mp hne

variable {selected : List PeerInfo}

theorem onlyByMajority_sortByDistance :
    OnlyByMajority c threshold candidates results (sortByDistance c addr selected) ↔
      OnlyByMajority c threshold candidates results selected := by
  unfold OnlyByMajority
  simp only [mem_sortByDistance]

/-- A client is given what is selected as soon as there are candidates enough: the last test for
too few peers never fails. -/
theorem getClosestNPeers_eq_ok {n : { n : Nat // 0 < n }} :
    getClosestNPeers c addr n (.ok candidates) results version = .ok selected ↔
      n.val ≤ candidates.length ∧ sortByDistance c addr
        (selectPeers c addr n.val (n.val / 2) candidates
          (Sightings.ofResults c extendSet results) version) = selected := by
  unfold getClosestNPeers
  by_cases hfew : candidates.length < n.val
  · simp [hfew]
  · have henough : ¬ (selectPeers c addr n.val (n.val / 2) candidates
        (Sightings.ofResults c extendSet results) version).length < n.val :=
      not_lt.mpr (le_length_selectPeers (not_lt.mp hfew))
    simp [hfew, henough, not_lt.mp hfew]

theorem getClosestPeersWithMajorityKnowledge_eq_ok :
    getClosestPeersWithMajorityKnowledge c addr (.ok candidates) results version = .ok selected ↔
      candidates ≠ [] ∧ sortByDistance c addr
        (selectPeers c addr candidates.length (candidates.length / 2) candidates
          (Sightings.ofResults c (· ++ ·) results) version) = selected := by
  unfold getClosestPeersWithMajorityKnowledge
  by_cases hempty : candidates = []
  · simp [hempty]
  · simp [hempty]

end Select

/-! ### The client and the node -/

/-- **When peers that were not candidates come in by majority alone.**  On the client, with
enough candidates, and on the node: just if repeats are harmless, whichever peers tell their
version. -/
theorem closestPeers_by_majority_iff (addr : NetworkAddress) (candidates : List PeerInfo)
    (results : List (PeerId × Except ε PeersList))
    (hasked : ∀ result ∈ results, result.1 ∈ candidates.map PeerInfo.peerId) :
    (∀ n : { n : Nat // 0 < n },
      (∀ version selected,
        getClosestNPeers c addr n (.ok candidates) results version = .ok selected →
          OnlyByMajority c (n.val / 2) candidates results selected) ↔
        (n.val ≤ candidates.length →
          RepeatsHarmless c n.val (n.val / 2) candidates results)) ∧
    ((∀ version selected,
      getClosestPeersWithMajorityKnowledge c addr (.ok candidates) results version
          = .ok selected →
        OnlyByMajority c (candidates.length / 2) candidates results selected) ↔
      RepeatsHarmless c candidates.length (candidates.length / 2) candidates results) := by
  refine ⟨fun n => ?_, ?_⟩
  · rw [← select_by_majority_iff c addr n.val (n.val / 2) keeps_extendSet hasked]
    simp only [getClosestNPeers_eq_ok]
    constructor
    · intro h henough version
      exact onlyByMajority_sortByDistance.mp (h version _ ⟨henough, rfl⟩)
    · rintro h version selected ⟨henough, rfl⟩
      exact onlyByMajority_sortByDistance.mpr (h henough version)
  · rw [← select_by_majority_iff c addr candidates.length (candidates.length / 2) keeps_append
      hasked]
    simp only [getClosestPeersWithMajorityKnowledge_eq_ok]
    constructor
    · intro h version
      by_cases hempty : candidates = []
      · subst hempty
        intro peer hselected
        rcases mem_selectPeers hselected with hnone | ⟨hroom, -⟩
        · cases hnone
        · exact absurd hroom (Nat.not_lt_zero _)
      · exact onlyByMajority_sortByDistance.mp (h version _ ⟨hempty, rfl⟩)
    · rintro h version selected ⟨-, rfl⟩
      exact onlyByMajority_sortByDistance.mpr (h version)

namespace Sample

def target : NetworkAddress := .recordKey [0]

def wanted : { n : Nat // 0 < n } := ⟨3, by decide⟩

def three : List PeerInfo := [⟨[1], [[.udp 1]]⟩, ⟨[2], [[.udp 2]]⟩, ⟨[3], [[.udp 3]]⟩]

def allTell : VersionAnswers := ⟨fun _ => true, id, fun _ => .refl _⟩

def outsider : NetworkAddress × List Multiaddr := (.peerId [9], [[.udp 9]])

/-- The first candidate names the outsider twice, and the others name nobody. -/
def namedTwice : List (PeerId × Except String PeersList) :=
  [([1], .ok [outsider, outsider]), ([2], .ok []), ([3], .ok [])]

def namedByTwo : List (PeerId × Except String PeersList) :=
  [([1], .ok [outsider]), ([3], .error "timeout"), ([2], .ok [outsider])]

end Sample

/-- Two of three name the outsider, once each: it is selected, and rightly. -/
theorem closestPeers_by_majority_sample :
    (∀ version selected,
      getClosestNPeers .simple Sample.target Sample.wanted (.ok Sample.three) Sample.namedByTwo
          version = .ok selected →
        OnlyByMajority .simple 1 Sample.three Sample.namedByTwo selected) ∧
      getClosestNPeers .simple Sample.target Sample.wanted (.ok Sample.three) Sample.namedByTwo
        Sample.allTell = .ok [⟨[2], [[.udp 2]]⟩, ⟨[1], [[.udp 1]]⟩, ⟨[9], [[.udp 9]]⟩] := by
  have hharmless : RepeatsHarmless .simple 3 1 Sample.three Sample.namedByTwo := by
    refine .inr fun peer _ hoften _ => ?_
    by_cases hpeer : peer = [9]
    · subst hpeer
      decide
    · have hnone : names .simple peer Sample.outsider = false :=
        decide_eq_false fun heq => hpeer (Option.some.inj heq).symm
      simp [mentions, reported, Sample.namedByTwo, hnone] at hoften
  refine ⟨?_, by decide⟩
  exact ((closestPeers_by_majority_iff .simple Sample.target Sample.three Sample.namedByTwo
    (by decide)).1 Sample.wanted).mpr fun _ => hharmless

/-- A single candidate brings in the outsider, on the client and on the node, whose list of
addresses repeats too. -/
theorem closestPeers_not_always_by_majority :
    let chosen : List PeerInfo := [⟨[2], [[.udp 2]]⟩, ⟨[1], [[.udp 1]]⟩, ⟨[9], [[.udp 9]]⟩]
    let chosenByNode : List PeerInfo := [⟨[2], [[.udp 2]]⟩, ⟨[1], [[.udp 1]]⟩,
      ⟨[9], [[.udp 9], [.udp 9]]⟩]
    (getClosestNPeers .simple Sample.target Sample.wanted (.ok Sample.three) Sample.namedTwice
        Sample.allTell = .ok chosen ∧
      ¬ OnlyByMajority .simple (Sample.wanted.val / 2) Sample.three Sample.namedTwice chosen) ∧
    (getClosestPeersWithMajorityKnowledge .simple Sample.target (.ok Sample.three)
        Sample.namedTwice Sample.allTell = .ok chosenByNode ∧
      ¬ OnlyByMajority .simple (Sample.three.length / 2) Sample.three Sample.namedTwice
        chosenByNode) := by
  refine ⟨⟨?_, ?_⟩, ?_, ?_⟩
  · decide
  · decide
  · decide
  · decide

/-! ### As many as asked for, and no peer twice -/

section Distinct

variable {c} {addr : NetworkAddress} {n threshold : Nat} {candidates verified peers : List PeerInfo}
  {seen : Sightings} {version : VersionAnswers}

/-- No peer stands in the list twice. -/
def Distinct (peers : List PeerInfo) : Prop := (peers.map PeerInfo.peerId).Nodup

theorem distinct_sortByDistance : Distinct (sortByDistance c addr peers) ↔ Distinct peers :=
  ((perm_sortByDistance peers).map _).nodup_iff

theorem Distinct.filter (h : Distinct peers) (test : PeerInfo → Bool) :
    Distinct (peers.filter test) :=
  h.sublist (filter_sublist.map _)

theorem Distinct.pick (h : Distinct verified) (hpeers : Distinct peers)
    (hnew : ∀ peer ∈ peers, peer.peerId ∉ verified.map PeerInfo.peerId) :
    Distinct (pick n verified peers) := by
  rw [pick_eq, Distinct, map_append, nodup_append']
  refine ⟨h, hpeers.sublist ((take_sublist _ _).map _), ?_⟩
  intro id hold htaken
  obtain ⟨peer, hpeer, rfl⟩ := mem_map.mp htaken
  exact hnew peer (mem_of_mem_take hpeer) hold

theorem length_pick_le (h : verified.length ≤ n) : (pick n verified peers).length ≤ n := by
  rw [pick_eq, length_append, length_take]
  omega

theorem distinct_tier2 : Distinct (tier2 c addr candidates (seen.popularPeerIds threshold) seen
    version) := by
  have hpopular : (seen.popularPeerIds threshold).Nodup :=
    NodupKeys.sublist filter_sublist seen.peerCounts.nodupKeys
  unfold tier2
  refine distinct_sortByDistance.mpr (Distinct.filter ?_ _)
  refine (((version.arrival_perm _).map _).nodup_iff).mpr (Distinct.filter ?_ _)
  rw [Distinct, map_map]
  exact (hpopular.filter _).map fun _ _ heq => heq

theorem distinct_pick_unselected (h : Distinct candidates) (hverified : Distinct verified)
    (test : PeerId → Bool) :
    Distinct (pick n verified (unselected c addr candidates verified test)) :=
  hverified.pick (distinct_sortByDistance.mpr (h.filter _))
    fun _ hpeer => (mem_unselected.mp hpeer).2.1

/-- Each tier adds peers that none of the tiers before has. -/
theorem distinct_selectPeers (h : Distinct candidates) :
    Distinct (selectPeers c addr n threshold candidates seen version) := by
  rw [selectPeers_eq]
  refine distinct_pick_unselected h (distinct_pick_unselected h ?_ _) _
  refine Distinct.pick (Distinct.pick nodup_nil ?_ ?_) distinct_tier2 ?_
  · exact distinct_sortByDistance.mpr (h.filter _)
  · exact fun _ _ => not_mem_nil
  · intro peer hpeer hmem
    obtain ⟨other, hother, heq⟩ := mem_map.mp hmem
    rcases mem_of_mem_pick hother with hnone | ⟨-, hfirst⟩
    · cases hnone
    · exact (mem_tier2.mp hpeer).2.1 (heq ▸ mem_map_of_mem (mem_tier1.mp hfirst).1)

theorem length_selectPeers_le :
    (selectPeers c addr n threshold candidates seen version).length ≤ n := by
  rw [selectPeers_eq]
  exact length_pick_le (length_pick_le (length_pick_le (length_pick_le (Nat.zero_le _))))

end Distinct

/--
**The client is given as many peers as it asked for, all different, closest first.**  With
enough candidates, all different, whatever the responses say and whoever tells its version.
-/
theorem getClosestNPeers_distinct_sorted (addr : NetworkAddress) (n : { n : Nat // 0 < n })
    (candidates : List PeerInfo) (hdistinct : (candidates.map PeerInfo.peerId).Nodup)
    (henough : n.val ≤ candidates.length) (results : List (PeerId × Except ε PeersList))
    (version : VersionAnswers) :
    ∃ selected, getClosestNPeers c addr n (.ok candidates) results version = .ok selected ∧
      selected.length = n.val ∧ (selected.map PeerInfo.peerId).Nodup ∧
      selected.Pairwise fun a b => getDistance c addr a.peerId ≤ getDistance c addr b.peerId := by
  refine ⟨_, getClosestNPeers_eq_ok.mpr ⟨henough, rfl⟩, ?_, ?_, ?_⟩
  · rw [(perm_sortByDistance _).length_eq]
    exact le_antisymm length_selectPeers_le (le_length_selectPeers henough)
  · exact distinct_sortByDistance.mpr (distinct_selectPeers hdistinct)
  · have : Std.Total fun a b : PeerInfo =>
        getDistance c addr a.peerId ≤ getDistance c addr b.peerId := ⟨fun _ _ => le_total _ _⟩
    have : IsTrans PeerInfo fun a b : PeerInfo =>
        getDistance c addr a.peerId ≤ getDistance c addr b.peerId := ⟨fun _ _ _ => le_trans⟩
    exact pairwise_insertionSort _ _

/-- Candidates 1 and 2 are seen often, and so is the outsider. -/
theorem getClosestNPeers_distinct_sorted_sample :
    ∃ selected, getClosestNPeers .simple Sample.target Sample.wanted (.ok Sample.three)
        Sample.namedByTwo Sample.allTell = .ok selected ∧ selected.length = 3 ∧
      (selected.map PeerInfo.peerId).Nodup ∧ selected.Pairwise fun a b =>
        getDistance .simple Sample.target a.peerId ≤ getDistance .simple Sample.target b.peerId :=
  getClosestNPeers_distinct_sorted .simple Sample.target Sample.wanted Sample.three (by decide)
    (by decide) Sample.namedByTwo Sample.allTell

end Autonomi
