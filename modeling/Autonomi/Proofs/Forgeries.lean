/-
Forged versions and what they do to a read.

Versions are counted before their signatures are looked at, so a forged version takes
part in the vote.  Whether the outcome is that of the valid versions alone depends on
who leads: `resolveAndVerify_filter_iff` says so for any type of data.

Two scratchpads count as copies when their data agree, whoever owns and signs them: a
forged copy can stand in for the valid one it is a copy of, and add its vote to it.
-/
import Autonomi.Proofs.ClientReads

namespace Autonomi.Client

open Lib Lib.Checks Lib.Plurality
variable {records : List Record}

open Fallible (Runs)

section Resolve

variable {T κ ε : Type} [DecidableEq T] [DecidableEq κ]
  {deserialize : Record → Except ε T} {counterOf : T → UInt64} {content : T → κ}
  {sameContent : T → T → Bool} {forkError : Finset T → ε} {corruptError : ε}
  {verify : T → Except ε Unit} {good : T → Bool}

def goodRecords (deserialize : Record → Except ε T) (good : T → Bool) (records : List Record) :
    List Record :=
  records.filter fun record => (deserialize record).toOption.any good

omit [DecidableEq T] in
theorem itemsOf_goodRecords (records : List Record) :
    itemsOf deserialize (goodRecords deserialize good records)
      = (itemsOf deserialize records).filter good := by
  unfold itemsOf goodRecords
  induction records with
  | nil => rfl
  | cons record records ih =>
    cases hitem : (deserialize record).toOption with
    | none => simpa [hitem] using ih
    | some item =>
      by_cases hgood : good item
      · simp [hitem, hgood, ih]
      · simp [hitem, hgood, ih]

theorem verdict_verify_cases {best : List T} (hne : best ≠ []) {r : Except ε T}
    (hr : r = (do
      let item ← verdict forkError corruptError best
      verify item
      return item)) :
    (∃ x, best = [x] ∧ verify x = .ok () ∧ r = .ok x) ∨
    (∃ x e, best = [x] ∧ verify x = .error e ∧ r = .error e) ∨
    (∃ s : Finset T, (∀ y, y ∈ s ↔ y ∈ best) ∧ r = .error (forkError s)) := by
  rcases verdict_cases forkError corruptError hne with
    ⟨x, hx, hverdict⟩ | ⟨s, hs, hverdict⟩
  · cases hverify : verify x with
    | ok _ =>
      refine .inl ⟨x, hx, hverify, ?_⟩
      simp [hr, hverdict, bind, Except.bind, hverify, pure, Except.pure]
    | error e =>
      refine .inr (.inl ⟨x, e, hx, hverify, ?_⟩)
      simp [hr, hverdict, bind, Except.bind, hverify]
  · refine .inr (.inr ⟨s, hs, ?_⟩)
    rw [hr, hverdict]
    rfl

variable (content) in
theorem resolveAndVerify_filter_iff (hsame : ∀ a b, sameContent a b = true ↔ content a = content b)
    (hfork : Function.Injective forkError) (hverify : ∀ x s, verify x ≠ .error (forkError s))
    (hsome : ∃ x ∈ itemsOf deserialize records, good x = true) :
    resolveAndVerify (resolveRecordsFromPeers deserialize counterOf sameContent forkError
        corruptError) verify records
      = resolveAndVerify (resolveRecordsFromPeers deserialize counterOf sameContent forkError
        corruptError) verify (goodRecords deserialize good records) ↔
    (∀ x, Leads (fun t => (counterOf t).toNat) content (itemsOf deserialize records) x ↔
      Leads (fun t => (counterOf t).toNat) content
        ((itemsOf deserialize records).filter good) x) ∨
    (∃ x y e, LeadsAlone (fun t => (counterOf t).toNat) content (itemsOf deserialize records) x ∧
      LeadsAlone (fun t => (counterOf t).toNat) content
        ((itemsOf deserialize records).filter good) y ∧
      verify x = .error e ∧ verify y = .error e) := by
  simp only [resolveAndVerify, resolveRecordsFromPeers_eq, itemsOf_goodRecords]
  simp only [LeadsAlone, ← mem_leaders_top hsame]
  set all := leaders sameContent (top (fun t => (counterOf t).toNat) (itemsOf deserialize records))
  set valid := leaders sameContent
    (top (fun t => (counterOf t).toNat) ((itemsOf deserialize records).filter good))
  have hallNodup : all.Nodup := nodup_leaders hsame _
  have hvalidNodup : valid.Nodup := nodup_leaders hsame _
  -- somebody leads among the items, and among the good ones
  have hleader : ∀ items : List T, items ≠ [] →
      leaders sameContent (top (fun t => (counterOf t).toNat) items) ≠ [] := by
    intro items hne
    obtain ⟨x, hx⟩ := exists_leads (fun t => (counterOf t).toNat) content hne
    exact List.ne_nil_of_mem ((mem_leaders_top hsame).mpr hx)
  obtain ⟨item, hitem, hgood⟩ := hsome
  have hallNe : all ≠ [] := hleader _ (List.ne_nil_of_mem hitem)
  have hvalidNe : valid ≠ [] :=
    hleader _ (List.ne_nil_of_mem (List.mem_filter.mpr ⟨hitem, hgood⟩))
  constructor
  · intro heq
    rcases verdict_verify_cases hvalidNe rfl with
      ⟨y, hy, -, hout⟩ | ⟨y, e, hy, hye, hout⟩ | ⟨t, ht, hout⟩
    · -- the valid versions are decided on
      rw [hout] at heq
      rcases verdict_verify_cases hallNe heq.symm with
        ⟨x, hx, -, hxy⟩ | ⟨_, _, _, _, hxy⟩ | ⟨_, _, hxy⟩
      · cases hxy
        exact .inl fun z => by rw [hx, hy]
      · cases hxy
      · cases hxy
    · -- the version decided on is refused
      rw [hout] at heq
      rcases verdict_verify_cases hallNe heq.symm with
        ⟨_, _, _, hxy⟩ | ⟨x, _, hx, hxe, hxy⟩ | ⟨s, _, hxy⟩
      · cases hxy
      · cases hxy
        exact .inr ⟨x, y, e, by simp [hx], by simp [hy], hxe, hye⟩
      · exact absurd (Except.error.inj hxy ▸ hye) (hverify y s)
    · -- the valid versions are in a fork
      rw [hout] at heq
      rcases verdict_verify_cases hallNe heq.symm with
        ⟨_, _, _, hxy⟩ | ⟨x, _, _, hxe, hxy⟩ | ⟨s, hs, hxy⟩
      · cases hxy
      · exact absurd ((Except.error.inj hxy).symm ▸ hxe) (hverify x t)
      · obtain rfl := hfork (Except.error.inj hxy)
        exact .inl fun z => (hs z).symm.trans (ht z)
  · rintro (hleads | ⟨x, y, e, hx, hy, hxv, hyv⟩)
    · rw [verdict_congr hallNodup hvalidNodup hleads]
    · rw [(verdict_eq_ok hallNodup).mpr hx, (verdict_eq_ok hvalidNodup).mpr hy]
      simp [bind, Except.bind, hxv, hyv]

end Resolve

/-! ### Genuine versions -/

variable (client : Client) (owner : PublicKey)

/-- Owned by the address and validly signed; anything else is forged. -/
def genuinePointer (p : Pointer) : Bool :=
  p.owner = owner ∧ p.verifySignature client.crypto client.rmpTarget

def genuineScratchpad (s : Scratchpad) : Bool :=
  s.owner = owner ∧ s.verifySignature client.crypto

def pointerOfGenuine (records : List Record) : Except PointerError Pointer :=
  resolveAndVerify resolvePointers (pointerVerify client)
    (goodRecords pointerFromRecord (genuinePointer client owner) records)

def scratchpadOfGenuine (records : List Record) : Except ScratchpadError Scratchpad :=
  resolveAndVerify (resolveScratchpads owner) (scratchpadVerify client)
    (goodRecords (scratchpadFromRecord owner) (genuineScratchpad client owner) records)

variable {client owner}

/-- A forged pointer has less than some genuine one: a lower counter, or fewer copies. -/
def PointerOutdone (client : Client) (owner : PublicKey) (pointers : List Pointer)
    (forged : Pointer) : Prop :=
  ∃ x ∈ pointers, genuinePointer client owner x = true ∧
    (forged.counter < x.counter ∨
      forged.counter = x.counter ∧ pointers.count forged < pointers.count x)

theorem copiesAt_eq_count (pointers : List Pointer) (x : Pointer) :
    copiesAt (fun p : Pointer => p.counter.toNat) id pointers x = pointers.count x := by
  refine List.countP_congr ?_
  intro y _
  simp only [id_eq, decide_eq_true_eq, beq_iff_eq, and_iff_right_iff_imp]
  rintro rfl
  rfl

theorem leadsPointers_genuine_iff {pointers : List Pointer}
    (hsome : ∃ x ∈ pointers, genuinePointer client owner x = true) :
    (∀ x, LeadsPointers pointers x ↔
      LeadsPointers (pointers.filter (genuinePointer client owner)) x) ↔
    ∀ forged ∈ pointers, genuinePointer client owner forged = false →
      PointerOutdone client owner pointers forged := by
  -- copies of a pointer are genuine together
  rw [leads_filter_iff id (fun x _ y _ _ h => congrArg _ h) hsome]
  simp only [PointerOutdone, copiesAt_eq_count, UInt64.lt_iff_toNat_lt, ← UInt64.toNat_inj]

theorem pointerOfGenuine_eq_iff
    (hsome : ∃ x ∈ pointersIn records, genuinePointer client owner x = true) :
    pointerOfGenuine client owner records
        = resolveAndVerify resolvePointers (pointerVerify client) records ↔
      ∀ forged ∈ pointersIn records, genuinePointer client owner forged = false →
        PointerOutdone client owner (pointersIn records) forged := by
  rw [eq_comm, pointerOfGenuine, ← leadsPointers_genuine_iff hsome]
  have hverify : ∀ x e, pointerVerify client x = .error e → e = .badSignature := by
    intro x e h
    unfold pointerVerify reject at h
    split at h
    · exact (Except.error.inj h).symm
    · cases h
  unfold resolvePointers
  rw [resolveAndVerify_filter_iff id (by simp) (fun s t h => PointerError.fork.inj h)
    (fun x s h => nomatch hverify x _ h) hsome]
  constructor
  · rintro (hleads | ⟨x, y, e, -, hy, -, hye⟩)
    · exact hleads
    · -- a genuine pointer is not refused
      have hgenuine := (List.mem_filter.mp (mem_top.mp ((hy y).mpr rfl).mem_top).1).2
      simp only [genuinePointer, Bool.decide_and, Bool.decide_eq_true, Bool.and_eq_true] at hgenuine
      simp [pointerVerify, reject, hgenuine.2] at hye
  · exact .inl

theorem scratchpadVerify_eq_error {x : Scratchpad} {e : ScratchpadError} :
    scratchpadVerify client x = .error e ↔
      (x.verifySignature client.crypto = false ∧ e = .badSignature) ∨
      (x.verifySignature client.crypto = true ∧ x.isTooBig client.scratchpadStructSize = true ∧
        e = .scratchpadTooBig (x.size client.scratchpadStructSize)) := by
  unfold scratchpadVerify reject
  cases x.verifySignature client.crypto <;>
    cases x.isTooBig client.scratchpadStructSize <;>
    simp [bind, Except.bind, eq_comm]

/-- Two scratchpads that are refused alike: too big, and by the same size. -/
def RefusedAlike (client : Client) (x y : Scratchpad) : Prop :=
  x.verifySignature client.crypto = true ∧
  x.isTooBig client.scratchpadStructSize = true ∧ y.isTooBig client.scratchpadStructSize = true ∧
  x.size client.scratchpadStructSize = y.size client.scratchpadStructSize

theorem refusedAlike_iff {x y : Scratchpad} (hy : y.verifySignature client.crypto = true) :
    (∃ e, scratchpadVerify client x = .error e ∧ scratchpadVerify client y = .error e) ↔
      RefusedAlike client x y := by
  constructor
  · rintro ⟨e, hxe, hye⟩
    rcases scratchpadVerify_eq_error.mp hye with ⟨hbad, -⟩ | ⟨-, hyBig, rfl⟩
    · rw [hy] at hbad
      cases hbad
    rcases scratchpadVerify_eq_error.mp hxe with ⟨-, hxy⟩ | ⟨hsig, hxBig, hxy⟩
    · cases hxy
    · exact ⟨hsig, hxBig, hyBig, (ScratchpadError.scratchpadTooBig.inj hxy).symm⟩
  · rintro ⟨hsig, hxBig, hyBig, hsize⟩
    exact ⟨_, scratchpadVerify_eq_error.mpr (.inr ⟨hsig, hxBig, rfl⟩),
      scratchpadVerify_eq_error.mpr (.inr ⟨hy, hyBig, by rw [hsize]⟩)⟩

theorem scratchpadOfGenuine_eq_iff
    (hsome : ∃ x ∈ scratchpadsIn records, genuineScratchpad client owner x = true) :
    scratchpadOfGenuine client owner records
        = resolveAndVerify (resolveScratchpads owner) (scratchpadVerify client) records ↔
      (∀ x, LeadsScratchpads (scratchpadsIn records) x ↔
        LeadsScratchpads ((scratchpadsIn records).filter (genuineScratchpad client owner)) x) ∨
      (∃ x y, LeadsAlone (fun s : Scratchpad => s.counter.toNat) scratchpadContent
          (scratchpadsIn records) x ∧
        LeadsAlone (fun s : Scratchpad => s.counter.toNat) scratchpadContent
          ((scratchpadsIn records).filter (genuineScratchpad client owner)) y ∧
        RefusedAlike client x y) := by
  rw [← itemsOf_scratchpadFromRecord owner] at hsome ⊢
  rw [eq_comm, scratchpadOfGenuine]
  have hverify : ∀ x s, scratchpadVerify client x ≠ .error (.fork s) := by
    intro x s h
    simp [scratchpadVerify_eq_error] at h
  unfold resolveScratchpads
  rw [resolveAndVerify_filter_iff scratchpadContent (by simp [scratchpadContent])
    (fun s t h => ScratchpadError.fork.inj h) hverify hsome]
  refine or_congr Iff.rfl (exists_congr fun x => exists_congr fun y => ?_)
  rw [exists_and_left, exists_and_left]
  refine and_congr_right fun _ => and_congr_right fun hy => refusedAlike_iff ?_
  have hgenuine := (List.mem_filter.mp (mem_top.mp ((hy y).mpr rfl).mem_top).1).2
  simp only [genuineScratchpad, Bool.decide_and, Bool.decide_eq_true, Bool.and_eq_true] at hgenuine
  exact hgenuine.2

/--
**When forged versions make no difference.**  With a genuine version among the
delivered records, a read ends as for the genuine versions alone exactly when
 * for pointers, every forged one is outdone by a genuine one;
 * for scratchpads, the same ones lead with and without the forged ones (or the two
   leaders are both refused for the same size).
-/
theorem forgeries_harmless_iff (client : Client) (owner : PublicKey) (es : List ClientExchange)
    (records : List Record) :
    (Runs (deliveredRecords (.pointerAddress owner) client.pointer) es (.ok (some records)) →
      (∃ x ∈ pointersIn records, genuinePointer client owner x = true) →
      (Runs (pointerGet client owner) es (pointerOfGenuine client owner records) ↔
        ∀ forged ∈ pointersIn records, genuinePointer client owner forged = false →
          PointerOutdone client owner (pointersIn records) forged)) ∧
    (Runs (deliveredRecords (.scratchpadAddress owner) client.scratchpad) es
        (.ok (some records)) →
      (∃ x ∈ scratchpadsIn records, genuineScratchpad client owner x = true) →
      (Runs (scratchpadGet client owner) es (scratchpadOfGenuine client owner records) ↔
        (∀ x, LeadsScratchpads (scratchpadsIn records) x ↔
          LeadsScratchpads ((scratchpadsIn records).filter (genuineScratchpad client owner)) x) ∨
        (∃ x y, LeadsAlone (fun s : Scratchpad => s.counter.toNat) scratchpadContent
            (scratchpadsIn records) x ∧
          LeadsAlone (fun s : Scratchpad => s.counter.toNat) scratchpadContent
            ((scratchpadsIn records).filter (genuineScratchpad client owner)) y ∧
          RefusedAlike client x y))) := by
  constructor
  · intro hdelivered hsome
    rw [pointerGet, runs_getResolved_delivered hdelivered]
    exact pointerOfGenuine_eq_iff hsome
  · intro hdelivered hsome
    rw [scratchpadGet, runs_getResolved_delivered hdelivered]
    exact scratchpadOfGenuine_eq_iff hsome

/-! ### A forged pointer with a higher counter -/

def disagreeing (record other : Record) : KadQuery where
  found := [(some [1], record), (some [2], record), (some [3], other)]
  finish := .finishedWithNoAdditionalRecord

/-- The exchanges of a query that ends in a split, resolved in the order of arrival. -/
def splitExchanges (address : NetworkAddress) (record other : Record) : List ClientExchange :=
  [⟨.getRecord address .majority, .ok (disagreeing record other)⟩, ⟨.order 3, Equiv.refl _⟩]

theorem runs_deliveredRecords_split {address : NetworkAddress} {strategy : Strategy}
    {record other : Record} (hquorum : strategy.getQuorum = .majority)
    (hattempts : 0 < strategy.getRetry.backoff) (hne : record.value ≠ other.value) :
    Runs (deliveredRecords address strategy) (splitExchanges address record other)
      (.ok (some [record, record, other])) := by
  have hsplit : updateGetRecord .majority (disagreeing record other).finish
      (disagreeing record other).found []
      = .error (.splitRecord [([1], record), ([2], record), ([3], other)]) := by
    have hrecords : record ≠ other := fun h => hne (congrArg Record.value h)
    simp [updateGetRecord, disagreeing, Holders.insert, getMaxContentHoldersCount,
      sendGetRecordResult, List.max?, Quorum.amount, closeGroupMajority, closeGroupSize, hne,
      hne.symm, hrecords, List.dedup_cons_of_notMem]
  have hget : Runs (getRecordWithRetries address strategy)
      [⟨.getRecord address .majority, .ok (disagreeing record other)⟩]
      (.error (.splitRecord [([1], record), ([2], record), ([3], other)])) := by
    obtain ⟨attempts, hattempts⟩ := Nat.exists_eq_succ_of_ne_zero (Nat.pos_iff_ne_zero.mp hattempts)
    rw [getRecordWithRetries, hattempts, getRecordAttempts, hquorum, Fallible.runs_attempt_bind_iff]
    exact ⟨_, [], _, rfl, hsplit ▸ runs_getRecord _, Fallible.runs_throw.mpr ⟨rfl, rfl⟩⟩
  refine Fallible.runs_attempt_bind_iff.mpr ⟨_, _, _, rfl, hget, ?_⟩
  exact runs_inAnyOrder_bind_iff.mpr ⟨Equiv.refl _, [], rfl, Fallible.runs_return⟩

def samplePointer (counter : UInt64) (signer : UInt8) : Pointer :=
  ⟨sampleKey 1, counter, .chunkAddress (bytes32 0), sampleSignature signer⟩

def samplePointerRecord (counter : UInt64) (signer : UInt8) : Record :=
  ⟨[], .ofPointer (samplePointer counter signer)⟩

theorem pointersIn_sample (c c' : UInt64) (s s' : UInt8) :
    pointersIn [samplePointerRecord c s, samplePointerRecord c s, samplePointerRecord c' s']
      = [samplePointer c s, samplePointer c s, samplePointer c' s'] := rfl

/-- Two peers hold the owner's pointer; a third sends a badly signed one that claims to be newer. -/
theorem forgery_takes_over :
    ¬ ∀ (client : Client) (owner : PublicKey) (es : List ClientExchange) (records : List Record),
      Runs (deliveredRecords (.pointerAddress owner) client.pointer) es (.ok (some records)) →
      (∃ x ∈ pointersIn records, genuinePointer client owner x = true) →
      Runs (pointerGet client owner) es (pointerOfGenuine client owner records) := by
  intro h
  have hne : (samplePointerRecord 0 1).value ≠ (samplePointerRecord 1 2).value := by
    decide
  have hdelivered : Runs (deliveredRecords (.pointerAddress (sampleKey 1)) sampleClient.pointer) _ _ :=
    runs_deliveredRecords_split rfl (by decide) hne
  have hsome : ∃ x ∈ pointersIn [samplePointerRecord 0 1, samplePointerRecord 0 1,
      samplePointerRecord 1 2], genuinePointer sampleClient (sampleKey 1) x = true :=
    ⟨samplePointer 0 1, by simp [pointersIn_sample], by decide⟩
  have hread := h sampleClient (sampleKey 1) _ _ hdelivered hsome
  rw [pointerGet, runs_getResolved_delivered hdelivered, pointerOfGenuine_eq_iff hsome,
    pointersIn_sample] at hread
  obtain ⟨x, hx, hgenuine, hmore⟩ := hread (samplePointer 1 2) (by simp) (by decide)
  simp only [List.mem_cons, List.not_mem_nil, or_false, or_self_left] at hx
  rcases hx with rfl | rfl
  · revert hmore
    decide
  · revert hgenuine
    decide

/-- An older forgery is harmless. -/
theorem forgeries_harmless_older :
    Runs (pointerGet sampleClient (sampleKey 1))
      (splitExchanges (.pointerAddress (sampleKey 1)) (samplePointerRecord 1 1)
        (samplePointerRecord 0 2))
      (pointerOfGenuine sampleClient (sampleKey 1)
        [samplePointerRecord 1 1, samplePointerRecord 1 1, samplePointerRecord 0 2]) := by
  refine ((forgeries_harmless_iff sampleClient (sampleKey 1) _ _).1
    (runs_deliveredRecords_split rfl (by decide) (by decide))
    ⟨samplePointer 1 1, by simp [pointersIn_sample], by decide⟩).mpr ?_
  intro forged hforged hbad
  refine ⟨samplePointer 1 1, by simp [pointersIn_sample], by decide, ?_⟩
  simp only [pointersIn_sample, List.mem_cons, List.not_mem_nil, or_false, or_self_left] at hforged
  rcases hforged with rfl | rfl
  · revert hbad
    decide
  · exact .inl (by decide)

end Autonomi.Client
