/-
In which order the addresses of the sources come.

The documentation of `Bootstrap` promises the addresses of the environment and the
command line first, then those of the cache, then those of the contacts endpoints.  What
can break the order is `new`, which puts the addresses it was handed back behind those
that are in the queue by then.
-/
import Autonomi.Proofs.BootstrapRuns

namespace Autonomi

open Lib List

/-- Where an address comes from; the environment and the command line are both given. -/
inductive AddrSource
  | given
  | cache
  | contacts
deriving DecidableEq

def AddrSource.rank : AddrSource → Nat
  | .given => 0
  | .cache => 1
  | .contacts => 2

def FetchTarget.source : FetchTarget → AddrSource
  | .cache => .cache
  | .contacts _ => .contacts

variable {A : Type}

/-- No address stands before one of an earlier source. -/
def InSourceOrder (source : A → AddrSource) (addrs : List A) : Prop :=
  addrs.Pairwise fun a b => (source a).rank ≤ (source b).rank

instance (source : A → AddrSource) (addrs : List A) : Decidable (InSourceOrder source addrs) :=
  inferInstanceAs (Decidable (addrs.Pairwise _))

/-- What a fetch delivers is marked as from where it was fetched. -/
def DeliversOwn (source : A → AddrSource) (s : BootstrapRun A) : BootstrapLabel A → Prop
  | .finish i addrs => ∀ target ∈ s.inFlight[i]?, ∀ a ∈ addrs, source a = target.source
  | _ => True

def BootstrapPhase.putBack : BootstrapPhase A → List A
  | .finalizing collected refused =>
    if minAddress refused ≤ collected.length then collected else []
  | _ => []

/-- When `new` puts its addresses back, none in the queue is of a later source than any of
them. -/
def PutsBackInOrder (source : A → AddrSource) (s : BootstrapRun A) : BootstrapLabel A → Prop
  | .finalize => ∀ queued ∈ s.bootstrap.addrs, ∀ a ∈ s.phase.putBack,
      (source queued).rank ≤ (source a).rank
  | _ => True

instance (source : A → AddrSource) (s : BootstrapRun A) :
    ∀ label, Decidable (DeliversOwn source s label)
  | .finish i addrs => inferInstanceAs (Decidable
      (∀ target ∈ s.inFlight[i]?, ∀ a ∈ addrs, source a = target.source))
  | .call | .advance | .finalize | .wake _ => isTrue trivial

instance (source : A → AddrSource) (s : BootstrapRun A) :
    ∀ label, Decidable (PutsBackInOrder source s label)
  | .finalize => inferInstanceAs (Decidable (∀ queued ∈ s.bootstrap.addrs,
      ∀ a ∈ s.phase.putBack, (source queued).rank ≤ (source a).rank))
  | .call | .advance | .finish _ _ | .wake _ => isTrue trivial

/-! ### The order of the line -/

/-- The line is in order, and what is ahead comes after it, in order too. -/
structure Ordered (source : A → AddrSource) (s : BootstrapRun A) : Prop where
  line : InSourceOrder source s.line
  before : ∀ a ∈ s.line, ∀ target ∈ s.ahead, (source a).rank ≤ target.source.rank
  ahead : s.ahead.Pairwise fun t t' => t.source.rank ≤ t'.source.rank

section Ordered

variable {source : A → AddrSource} {s s' : BootstrapRun A} {label : BootstrapLabel A}
  {targets : List FetchTarget}

theorem pendingTargets_ordered (b : Bootstrap A) :
    b.pendingTargets.Pairwise fun t t' => t.source.rank ≤ t'.source.rank := by
  have hcontacts : ∀ urls : List Url,
      (urls.map FetchTarget.contacts).Pairwise fun t t' => t.source.rank ≤ t'.source.rank := by
    intro urls
    rw [pairwise_map]
    exact pairwise_of_forall fun _ _ => le_rfl
  unfold Bootstrap.pendingTargets
  split_ifs with hcache
  · refine pairwise_cons.mpr ⟨?_, hcontacts _⟩
    intro target htarget
    obtain ⟨url, -, rfl⟩ := mem_map.mp htarget
    show 1 ≤ 2
    decide
  · exact hcontacts _

theorem singleton_of_getElem? {l : List FetchTarget} {i : Nat} {target : FetchTarget}
    (hone : l.length ≤ 1) (htarget : l[i]? = some target) : l = [target] ∧ l.eraseIdx i = [] := by
  obtain ⟨hlt, hget⟩ := List.getElem?_eq_some_iff.mp htarget
  obtain ⟨only, rfl⟩ := length_eq_one_iff.mp (Nat.le_antisymm hone (Nat.zero_lt_of_lt hlt))
  obtain rfl : i = 0 := Nat.lt_one_iff.mp hlt
  exact ⟨congrArg (fun t => [t]) hget, rfl⟩

/-- A fetch delivers behind everything there is, and before everything that is ahead. -/
theorem ordered_delivery {i : Nat} {addrs : List A} {target : FetchTarget}
    (h : Ordered source s) (hone : s.inFlight.length ≤ 1)
    (htarget : s.inFlight[i]? = some target) (hown : ∀ a ∈ addrs, source a = target.source)
    (hline : s'.line = s.line ++ addrs)
    (hahead : s'.ahead = s.inFlight.eraseIdx i ++ s.bootstrap.pendingTargets) :
    Ordered source s' := by
  -- It was the only fetch under way, so it is first of what was ahead.
  obtain ⟨hinFlight, herased⟩ := singleton_of_getElem? hone htarget
  have hwas : s.ahead = target :: s.bootstrap.pendingTargets := by
    rw [BootstrapRun.ahead, hinFlight]
    rfl
  obtain ⟨hline₀, hbefore, hordered⟩ := h
  rw [hwas] at hbefore hordered
  obtain ⟨hfirst, hrest⟩ := pairwise_cons.mp hordered
  rw [herased] at hahead
  refine ⟨?_, ?_, ?_⟩
  · rw [hline]
    refine pairwise_append.mpr ⟨hline₀, ?_, ?_⟩
    · refine pairwise_of_forall_mem_list ?_
      intro a ha b hb
      rw [hown a ha, hown b hb]
    · intro a ha b hb
      rw [hown b hb]
      exact hbefore a ha target mem_cons_self
  · rw [hline, hahead]
    intro a ha later hlater
    rcases mem_append.mp ha with ha | ha
    · exact hbefore a ha later (mem_cons_of_mem _ hlater)
    · rw [hown a ha]
      exact hfirst later hlater
  · rw [hahead]
    exact hrest

/-- Putting back keeps the order if the queue may stand before what is put back. -/
theorem ordered_putBack {collected : List A} {refused : Option BootstrapError}
    (h : Ordered source s) (hphase : s.phase = .finalizing collected refused)
    (hswap : ∀ queued ∈ s.bootstrap.addrs, ∀ a ∈ collected,
      (source queued).rank ≤ (source a).rank)
    (hline : s'.line = s.returned ++
      (s.bootstrap.addrs ++ collected ++ s.channel.flatMap FetchEvent.addrs))
    (hahead : s'.ahead = s.ahead) : Ordered source s' := by
  obtain ⟨hordered, hbefore, haheadOrdered⟩ := h
  have hold : s.line = s.returned ++
      (collected ++ (s.bootstrap.addrs ++ s.channel.flatMap FetchEvent.addrs)) := by
    unfold BootstrapRun.line
    rw [hphase, append_assoc]
    rfl
  refine ⟨?_, ?_, ?_⟩
  · rw [hold] at hordered
    unfold InSourceOrder at hordered ⊢
    rw [hline]
    simp only [pairwise_append, mem_append] at hordered ⊢
    obtain ⟨hreturned, ⟨hcollected, ⟨hqueue, hchannel, hqc⟩, hcq⟩, hfirst⟩ := hordered
    refine ⟨hreturned, ⟨⟨hqueue, hcollected, hswap⟩, hchannel, ?_⟩, ?_⟩
    · rintro a (ha | ha) b hb
      · exact hqc a ha b hb
      · exact hcq a ha b (.inr hb)
    · rintro a ha b ((hb | hb) | hb)
      · exact hfirst a ha b (.inr (.inl hb))
      · exact hfirst a ha b (.inl hb)
      · exact hfirst a ha b (.inr (.inr hb))
  · rw [hahead]
    intro a ha
    refine hbefore a ?_
    rw [hline] at ha
    rw [hold]
    simp only [mem_append] at ha ⊢
    tauto
  · rw [hahead]
    exact haheadOrdered

theorem ordered_lineStep (h : Ordered source s) (hone : s.inFlight.length ≤ 1)
    (hstep : LineStep s s' label) (hown : DeliversOwn source s label)
    (hputs : PutsBackInOrder source s label) : Ordered source s' := by
  cases hstep with
  | same _ hline hahead _ =>
    obtain ⟨hordered, hbefore, haheadOrdered⟩ := h
    rw [← hline] at hordered hbefore
    rw [← hahead] at hbefore haheadOrdered
    exact ⟨hordered, hbefore, haheadOrdered⟩
  | delivery i addrs target htarget hline hahead _ =>
    exact ordered_delivery h hone htarget (hown target htarget) hline hahead
  | putBack collected refused hphase henough hline hahead _ =>
    refine ordered_putBack h hphase ?_ hline hahead
    intro queued hqueued a ha
    refine hputs queued hqueued a ?_
    rw [hphase, BootstrapPhase.putBack, if_pos henough]
    exact ha

theorem ordered_start {env : BootstrapEnv A} {config : BootstrapConfig A}
    (h : AtStart env config s) (hgiven : ∀ a ∈ givenAddrs env config, source a = .given) :
    Ordered source s := by
  refine ⟨?_, ?_, ?_⟩
  · rw [h.line_eq]
    refine pairwise_of_forall_mem_list ?_
    intro a ha b hb
    rw [hgiven a ha, hgiven b hb]
  · rw [h.line_eq]
    intro a ha target _
    rw [hgiven a ha]
    exact Nat.zero_le _
  · rw [BootstrapRun.ahead, h.inFlight]
    exact pendingTargets_ordered _

end Ordered

/--
**Addresses come in the order of their sources, if `new` puts them back in order.**  For every
configuration and every run in which, whenever `new` puts the addresses it has collected back
into the queue, no address in the queue is of a later source than one of them: what `next_addr`
has returned is in the documented order.
-/
theorem returned_in_order (env : BootstrapEnv A) (config : BootstrapConfig A)
    (source : A → AddrSource) (start s : BootstrapRun A) (labels : List (BootstrapLabel A))
    (hnew : bootstrapNew env config = .ok start)
    (hgiven : ∀ a ∈ givenAddrs env config, source a = .given)
    (hrun : GuardedRun (bootstrapStep env.multiaddrGetPeerId)
      (fun s label => DeliversOwn source s label ∧ PutsBackInOrder source s label)
      start labels s) :
    InSourceOrder source s.returned := by
  have hstart := atStart_of_new hnew
  have hinv := hrun.invariant
    (I := fun s => Accounted start.bootstrap.pendingTargets s ∧ Ordered source s) ?_
    ⟨accounted_start hnew, ordered_start hstart hgiven⟩
  · have hline := hinv.2.line
    rw [BootstrapRun.line, append_assoc] at hline
    exact (pairwise_append.mp hline).1
  · rintro s label s' ⟨haccounted, hordered⟩ ⟨hown, hputs⟩ hstep
    have hstep := step_cases hstep
    have hone := (Nat.le_add_right _ _).trans haccounted.inFlight_le
    exact ⟨accounted_step haccounted hstep,
      ordered_lineStep hordered hone (lineStep_of_step hstep) hown hputs⟩

namespace Sample

/-- Addresses are numbers; zero is the one on the command line. -/
def numberEnv : BootstrapEnv Nat where
  multiaddrGetPeerId := fun _ => none
  craftValidMultiaddr := some
  craftValidMultiaddrFromStr := fun _ => none
  parseUrl := some
  antPeers := none
  networkId := 7
  cacheStore := .ok ()
  clearCache := .ok ()

def numberConfig : BootstrapConfig Nat where
  backwardsCompatibleWrites := false
  disableCacheWriting := false
  disableCacheReading := false
  disableEnvPeers := false
  first := false
  initialPeers := [0]
  localNetwork := true
  maxCachedPeers := 1500
  maxAddrsPerCachedPeer := 3
  networkContactsUrl := []

def numberSource (n : Nat) : AddrSource := if n = 0 then .given else .cache

def numberStart : BootstrapRun Nat := bootstrapStarted numberEnv numberConfig none

def collectOne : List (BootstrapLabel Nat) := [.advance, .advance, .finalize]

/-- `new` collects the given address, reads the cache, and collects four addresses of it. -/
def collectFive (cached : List Nat) : List (BootstrapLabel Nat) :=
  collectOne ++ [.advance, .advance, .advance, .advance, .finish 0 cached, .wake false, .advance]
    ++ collectOne ++ collectOne ++ collectOne ++ collectOne

def callTwice : List (BootstrapLabel Nat) := [.call, .advance, .advance, .call, .advance, .advance]

end Sample

open Sample

/-- With exactly five addresses the given one comes first. -/
theorem returned_in_order_sample :
    ∃ s, runSteps (bootstrapStep Sample.numberEnv.multiaddrGetPeerId) Sample.numberStart
        (Sample.collectFive [1, 2, 3, 4] ++ Sample.callTwice) = some s ∧
      s.returned = [0, 1] ∧ InSourceOrder Sample.numberSource s.returned := by
  have hend : (runGuarded (bootstrapStep numberEnv.multiaddrGetPeerId)
      (fun s label => DeliversOwn numberSource s label ∧
        PutsBackInOrder numberSource s label) numberStart
      (collectFive [1, 2, 3, 4] ++ callTwice)).map BootstrapRun.returned
      = some [0, 1] := by
    decide
  obtain ⟨s, hs, hreturned⟩ := Option.map_eq_some_iff.mp hend
  have hrun := guardedRun_of_runGuarded hs
  exact ⟨s, hrun.runSteps_eq, hreturned, returned_in_order numberEnv numberConfig
    numberSource numberStart s _ rfl (by decide) hrun⟩

/-- With one more address in the cache, that one comes before the given one. -/
theorem cache_before_given :
    ¬ ∀ (A : Type) (env : BootstrapEnv A) (config : BootstrapConfig A) (source : A → AddrSource)
        (start s : BootstrapRun A) (labels : List (BootstrapLabel A)),
      bootstrapNew env config = .ok start →
      (∀ a ∈ givenAddrs env config, source a = .given) →
      GuardedRun (bootstrapStep env.multiaddrGetPeerId) (DeliversOwn source) start labels s →
      InSourceOrder source s.returned := by
  intro h
  have hend : (runGuarded (bootstrapStep numberEnv.multiaddrGetPeerId)
      (DeliversOwn numberSource) numberStart
      (collectFive [1, 2, 3, 4, 5] ++ callTwice)).map BootstrapRun.returned
      = some [5, 0] := by
    decide
  obtain ⟨s, hs, hreturned⟩ := Option.map_eq_some_iff.mp hend
  have horder := h Nat numberEnv numberConfig numberSource numberStart s
    _ rfl (by decide) (guardedRun_of_runGuarded hs)
  rw [hreturned] at horder
  exact absurd horder (by decide)

end Autonomi
