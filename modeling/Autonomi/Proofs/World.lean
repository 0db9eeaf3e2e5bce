/-
Reads, payments and puts in the world.

In a world a read is decided by what is stored: a record that is there is found, in
however many copies, and copies of one record resolve to it.  Reads leave the store as
it is and draw nothing.

A wallet gets a proof of payment for exactly those addresses under which nothing is
stored.
-/
import Autonomi.Client.World
import Autonomi.Proofs.ClientReads
import Autonomi.Proofs.Payments

namespace Autonomi.Client

open Lib Lib.Plurality Lib.Fallible

/-! ### What reads leave alone -/

namespace World

/-- The same store and the same numbers drawn, no earlier. -/
structure Still (w w' : World) : Prop where
  store : w'.store = w.store
  drawn : w'.drawn = w.drawn
  clock : w.clock ≤ w'.clock

theorem Still.refl (w : World) : w.Still w := ⟨rfl, rfl, le_rfl⟩

theorem Still.trans {w w' w'' : World} (h : w.Still w') (h' : w'.Still w'') : w.Still w'' :=
  ⟨h'.store.trans h.store, h'.drawn.trans h.drawn, h.clock.trans h'.clock⟩

theorem still_tick (w : World) : w.Still w.tick := ⟨rfl, rfl, Nat.le_succ _⟩

theorem Still.record {w w' : World} (h : w.Still w') (c : Crypto) (address : NetworkAddress) :
    w'.record c address = w.record c address := by
  rw [World.record, h.store, ← World.record]

end World

/-- A request that puts nothing and draws nothing. -/
def ReadsOnly : ClientRequest → Prop
  | .putRecord _ _ _ => False
  | .random => False
  | _ => True

namespace Network

variable {client : Client} (net : Network client) {ε α β : Type} {request : ClientRequest}

theorem answer_still (w : World) (h : ReadsOnly request) : w.Still (net.answer w request).2 := by
  cases request
  case putRecord => exact absurd h id
  case random => exact absurd h id
  all_goals exact w.still_tick

variable {p : ClientM ε α}

theorem run_still (h : Asks ReadsOnly p) (w : World) : w.Still (net.run p w).2 :=
  runIn_invariant h (fun _ _ hstill hreads => hstill.trans (net.answer_still _ hreads))
    (World.Still.refl w)

theorem drawn_answer_le (w : World) (request : ClientRequest) :
    w.drawn.length ≤ (net.answer w request).2.drawn.length := by
  cases request
  case putRecord record targets quorum =>
    have hput : (w.put record).drawn = w.drawn := by
      unfold World.put
      split <;> rfl
    simp only [answer]
    split
    · split
      · exact Nat.le_of_eq (congrArg List.length hput.symm)
      · exact le_rfl
    · exact le_rfl
  case random => exact (List.sublist_append_left _ _).length_le
  all_goals exact le_rfl

theorem drawn_le {w w' : World} {r : Except ε α} (h : net.run p w = (r, w')) :
    w.drawn.length ≤ w'.drawn.length := by
  have hrun := runIn_invariant (I := fun s : World => w.drawn.length ≤ s.drawn.length)
    (asks_true p) (fun s request hle _ => hle.trans (net.drawn_answer_le s request))
    le_rfl
  rwa [show Fallible.runIn net.answer p w = (r, w') from h] at hrun

/-! ### Getting records -/

/-- A program ends with a result, and has only read. -/
abbrev Reads (q : ClientM ε α) (w : World) (r : Except ε α) : Prop :=
  ∃ w', w.Still w' ∧ net.run q w = (r, w')

variable (address : NetworkAddress)

theorem run_getRecord (quorum : Quorum) (w : World) :
    net.run (getRecord address quorum) w = (.ok (w.record client.crypto address), w.tick) := by
  have hfinds := net.query_finds w.clock address quorum (w.record client.crypto address)
  refine (runIn_bind_of_ok rfl).trans ?_
  refine (runIn_bind_of_ok rfl).trans ?_
  rw [hfinds]
  rfl

theorem run_queryPeers :
    ∀ (peers : List PeerId) (w : World), net.Reads (queryPeers address peers) w
      (.ok (List.replicate peers.length (.ok (w.record client.crypto address)))) := by
  intro peers
  induction peers with
  | nil => intro w; exact ⟨w, .refl w, rfl⟩
  | cons peer peers ih =>
    intro w
    obtain ⟨w', hstill, hrest⟩ := ih w.tick
    refine ⟨w', w.still_tick.trans hstill, ?_⟩
    refine (runIn_bind_of_ok rfl).trans ?_
    exact runIn_bind_of_ok hrest

theorem run_inAnyOrder (l : List α) (w : World) :
    ∃ order, net.run (inAnyOrder l : ClientM ε (List α)) w = (.ok (arrange l order), w.tick) :=
  ⟨_, rfl⟩

theorem run_fallback (w : World) :
    ∃ n, net.Reads (fetchRecordsFromClosestPeersFallback address) w
      (.ok ((w.record client.crypto address).map (List.replicate (n + 1)))) := by
  let peers := net.closestPeers w.clock address fallbackPeersCount
  obtain ⟨w', hstill, hasked⟩ := net.run_queryPeers address peers w.tick
  obtain ⟨n, hn⟩ : ∃ n, peers.length = n + 1 := Nat.exists_eq_succ_of_ne_zero
    (Nat.ne_of_gt (Nat.lt_of_lt_of_le (by decide) (net.closestPeers_enough _ _ _)))
  refine ⟨n, w'.tick, (w.still_tick.trans hstill).trans w'.still_tick, ?_⟩
  refine (runIn_bind_of_ok rfl).trans ?_
  refine (runIn_bind_of_ok hasked).trans ?_
  obtain ⟨order, horder⟩ := net.run_inAnyOrder (List.replicate peers.length
    (.ok (w.record client.crypto address) : Except NetworkError (Option Record))) w'
  refine (runIn_bind_of_ok horder).trans ?_
  rw [List.perm_replicate.mp (arrange_perm _ order), hn]
  cases w.record client.crypto address with
  | none | some record => simp [recordsAmong]

theorem run_getRecordAttempts (quorum : Quorum) :
    ∀ (attempts : Nat) (w : World), ∃ n, net.Reads (getRecordAttempts address quorum attempts) w
      (.ok ((w.record client.crypto address).map (List.replicate (n + 1)))) := by
  intro attempts
  induction attempts with
  | zero => exact net.run_fallback address
  | succ attempts ih =>
    intro w
    have hfirst := net.run_getRecord address quorum w
    cases hrecord : w.record client.crypto address with
    | some record =>
      rw [hrecord] at hfirst
      exact ⟨0, w.tick, w.still_tick, (runIn_attempt_bind hfirst).trans rfl⟩
    | none =>
      obtain ⟨n, w', hstill, hrest⟩ := ih w.tick
      rw [hrecord] at hfirst
      refine ⟨n, w', w.still_tick.trans hstill, ?_⟩
      refine (runIn_attempt_bind hfirst).trans (hrest.trans ?_)
      rw [w.still_tick.record, hrecord]

theorem run_getRecordWithRetries (strategy : Strategy) (w : World) :
    ∃ n, net.Reads (getRecordWithRetries address strategy) w
      (.ok ((w.record client.crypto address).map (List.replicate (n + 1)))) :=
  net.run_getRecordAttempts address strategy.getQuorum strategy.getRetry.backoff w

theorem run_checkExistence (strategy : Strategy) (f : NetworkError → ε) (w : World) :
    net.run (mapError f (checkExistence address strategy)) w
      = (.ok (w.store (address.toRecordKey client.crypto)).isSome, w.tick) := by
  have hfound := net.run_getRecord address strategy.verificationQuorum w
  refine runIn_mapError_of_ok ((runIn_attempt_bind hfound).trans ?_)
  rw [World.record]
  cases w.store (address.toRecordKey client.crypto) with
  | none | some value => rfl

/-! ### Reading what is under an owner's key -/

variable {w : World} {owner : PublicKey}

variable {address : NetworkAddress} {networkError : NetworkError → ε} {record : Record}
  {strategy : Strategy}

variable {T : Type} {resolve : List Record → Except ε T} {notFound : ε}
  {verify : T → Except ε Unit}

theorem run_getResolved {item : T} {value : RecordValue}
    (h : w.store (address.toRecordKey client.crypto) = some value)
    (hresolve : ∀ n, resolve (List.replicate (n + 1) ⟨address.toRecordKey client.crypto, value⟩)
      = .ok item) (hverify : verify item = .ok ()) :
    net.Reads (getResolved address strategy resolve notFound networkError verify) w (.ok item) := by
  obtain ⟨n, w', hstill, hget⟩ := net.run_getRecordWithRetries address strategy w
  rw [World.record, h] at hget
  refine ⟨w', hstill, (runIn_attempt_bind hget).trans ?_⟩
  refine (runIn_bind_of_ok (by rw [← hresolve n]; rfl)).trans ?_
  exact runIn_bind_of_ok (by rw [← hverify]; rfl)

theorem run_getResolved_none (h : w.store (address.toRecordKey client.crypto) = none) :
    net.Reads (getResolved address strategy resolve notFound networkError verify) w
      (.error notFound) := by
  obtain ⟨n, w', hstill, hget⟩ := net.run_getRecordWithRetries address strategy w
  rw [World.record, h] at hget
  exact ⟨w', hstill, (runIn_attempt_bind hget).trans rfl⟩

omit net in
theorem leadsAlone_replicate {T κ : Type} [DecidableEq κ] {counter : T → Nat} {content : T → κ}
    {items : List T} {item : T} {n : Nat} (h : items = List.replicate (n + 1) item) :
    LeadsAlone counter content items item := by
  rw [h]
  exact leadsAlone_of_forall_eq (by simp) fun _ => List.eq_of_mem_replicate

theorem run_pointerGet {pointer : Pointer}
    (h : w.under client.crypto owner = some (.ofPointer pointer))
    (hsigned : pointer.verifySignature client.crypto client.rmpTarget = true) :
    net.Reads (client.pointerGet owner) w (.ok pointer) :=
  net.run_getResolved h
    (fun _ => resolvePointers_eq_ok.mpr
      (leadsAlone_replicate (List.filterMap_replicate_of_some rfl)))
    (by simp [pointerVerify, hsigned])

theorem run_pointerGet_none (h : w.under client.crypto owner = none) :
    net.Reads (client.pointerGet owner) w (.error (.getError .recordNotFound)) :=
  net.run_getResolved_none h

theorem run_scratchpadGet {scratchpad : Scratchpad}
    (h : w.under client.crypto owner = some (.ofScratchpad scratchpad))
    (hverify : client.scratchpadVerify scratchpad = .ok ()) :
    net.Reads (client.scratchpadGet owner) w (.ok scratchpad) :=
  net.run_getResolved h
    (fun _ => resolveScratchpads_eq_ok.mpr
      (leadsAlone_replicate (List.filterMap_replicate_of_some rfl))) hverify

theorem run_scratchpadGet_none (h : w.under client.crypto owner = none) :
    net.Reads (client.scratchpadGet owner) w (.error (.notFound owner)) :=
  net.run_getResolved_none h

theorem run_graphEntryGet_eq {entries : List GraphEntry}
    (h : w.under client.crypto owner = some (.ofGraphEntries entries)) :
    ∃ n, net.Reads (client.graphEntryGet owner) w
      (resolveEntries (List.replicate (n + 1) entries).flatten) := by
  obtain ⟨n, w', hstill, hget⟩ :=
    net.run_getRecordWithRetries (.graphEntryAddress owner) client.graphEntry w
  have hrecord : w.record client.crypto (.graphEntryAddress owner)
      = some ⟨(ownerName client.crypto owner).toList, .ofGraphEntries entries⟩ := congrArg _ h
  rw [hrecord] at hget
  refine ⟨n, w', hstill, (runIn_attempt_bind hget).trans ?_⟩
  have hentries : allEntries (List.replicate (n + 1)
      ⟨(ownerName client.crypto owner).toList, .ofGraphEntries entries⟩)
        = (List.replicate (n + 1) entries).flatten :=
    congrArg List.flatten (List.filterMap_replicate_of_some rfl)
  simp only [Option.map_some, hentries]
  rfl

theorem run_graphEntryGet {entry : GraphEntry}
    (h : w.under client.crypto owner = some (.ofGraphEntries [entry])) :
    net.Reads (client.graphEntryGet owner) w (.ok entry) := by
  obtain ⟨n, w', hstill, hget⟩ := net.run_graphEntryGet_eq h
  have hresolve : resolveEntries (List.replicate (n + 1) entry) = .ok entry :=
    resolveEntries_eq_ok.mpr fun _ =>
      wins_of_forall_eq (by simp) fun _ => List.eq_of_mem_replicate
  rw [List.flatten_replicate_singleton, hresolve] at hget
  exact ⟨w', hstill, hget⟩

theorem run_graphEntryGet_none (h : w.under client.crypto owner = none) :
    net.Reads (client.graphEntryGet owner) w (.error (.getError .recordNotFound)) := by
  obtain ⟨n, w', hstill, hget⟩ :=
    net.run_getRecordWithRetries (.graphEntryAddress owner) client.graphEntry w
  have hrecord : w.record client.crypto (.graphEntryAddress owner) = none := congrArg _ h
  rw [hrecord] at hget
  exact ⟨w', hstill, (runIn_attempt_bind hget).trans rfl⟩

/-! ### Paying -/

/-- What is said of prices and of the store is right. -/
def Honest (client : Client) (w : World) : ClientExchange → Prop
  | ⟨.getMarketPrice metrics, .ok amounts⟩ =>
    amounts.length = metrics.length ∨ amounts.length = 1
  | ⟨.getQuote address _ _ _, .ok ⟨.error .recordExists, _⟩⟩ =>
    w.record client.crypto address ≠ none
  | ⟨.getQuote address _ _ _, .ok ⟨.ok _, _⟩⟩ => w.record client.crypto address = none
  | _ => True

theorem Honest.reported {e : ClientExchange} (h : Honest client w e)
    (hreports : reportsExisting address e = true) : w.record client.crypto address ≠ none := by
  unfold reportsExisting at hreports
  split at hreports
  · obtain rfl := of_decide_eq_true hreports
    exact h
  · cases hreports

theorem Honest.quoted {e : ClientExchange} (h : Honest client w e)
    (hquotes : quotesFor address e = true) : w.record client.crypto address = none := by
  unfold quotesFor at hquotes
  split at hquotes
  · obtain rfl := of_decide_eq_true hquotes
    exact h
  · cases hquotes

variable {net} in
theorem honest_answer {w' : World} (hstill : w.Still w')
    (h : ReadsOnly request) : Honest client w ⟨request, (net.answer w' request).1⟩ := by
  cases request
  case putRecord => exact absurd h id
  case random => exact absurd h id
  case getMarketPrice metrics =>
    show Honest client w ⟨.getMarketPrice metrics, net.marketPrice w'.clock metrics⟩
    cases hprice : net.marketPrice w'.clock metrics with
    | error e => trivial
    | ok amounts => exact net.marketPrice_complete _ _ _ hprice
  case getQuote address peer dataType size =>
    show Honest client w ⟨.getQuote address peer dataType size, .ok (if _ then _ else _)⟩
    rw [hstill.record]
    cases hrecord : w.record client.crypto address with
    | some record => simp [Honest, hrecord]
    | none =>
      obtain ⟨accepted, haccepted⟩ := net.quote_accepted w'.clock address peer dataType size
      obtain ⟨hquote, -⟩ := verifyQuote_some haccepted
      cases hresponse : net.quote w'.clock address peer dataType size with
      | mk quote peerAddress =>
        rw [hresponse] at hquote
        obtain rfl : quote = .ok accepted := hquote
        simpa [Honest] using hrecord
  all_goals trivial

theorem exists_honest_run (h : Asks ReadsOnly p) (w : World) :
    ∃ es, Fallible.Runs p es (net.run p w).1 ∧ ∀ e ∈ es, Honest client w e := by
  obtain ⟨es, hruns, hhonest, -⟩ := runs_runIn (I := w.Still) h
    (fun _ _ hs hq => ⟨honest_answer hs hq, hs.trans (net.answer_still _ hq)⟩) (World.Still.refl w)
  exact ⟨es, hruns, hhonest⟩

theorem asks_payForContentAddrs (client : Client) (dataType : DataTypes)
    (contentAddrs : List (XorName × Nat)) (paymentOption : PaymentOption) :
    Asks ReadsOnly (client.payForContentAddrs dataType contentAddrs paymentOption) := by
  have hbatches : ∀ bs hashes gas, Asks ReadsOnly (Wallet.payBatches bs hashes gas) := by
    intro bs
    induction bs with
    | nil => intro hashes gas; exact asks_pure
    | cons batch bs ih =>
      intro hashes gas
      refine asks_bind (asks_request trivial) fun answer => ?_
      match (answer : Except String (Retry.TxHash × Retry.GasInfo)) with
      | .error e => exact asks_throw
      | .ok (txHash, gasInfo) => exact ih _ _
  cases paymentOption with
  | receipt receipt => exact asks_pure
  | wallet wallet =>
    refine asks_bind asks_reject fun _ => asks_bind
      (asks_mapError (asks_getStoreQuotes client dataType contentAddrs
        (fun _ => trivial) (fun _ _ => trivial) (fun _ _ _ _ => trivial) fun _ => trivial))
      fun quotes => asks_ite ?_ asks_pure
    refine asks_bind (asks_inAnyOrder (fun _ => trivial) _) fun entries =>
      asks_bind (asks_mapError ?_) fun _ => asks_pure
    exact asks_bind (asks_mapError
      (asks_ensureTokens _ _ trivial trivial fun _ => trivial)) fun _ => hbatches _ _ _

end Network

/-- Where a proof of payment comes from: a wallet gets one for what is not stored, and a receipt
has it or not. -/
def PaymentOption.Proves (w : World) (name : XorName) : PaymentOption → Prop
  | .wallet _ => w.store name.toList = none
  | .receipt own => name ∈ own

variable {name : XorName} {paymentOption : PaymentOption}

theorem PaymentOption.proves_congr {w w' : World} (h : w'.store = w.store) :
    paymentOption.Proves w' name ↔ paymentOption.Proves w name := by
  cases paymentOption with
  | wallet wallet => rw [Proves, Proves, h]
  | receipt own => rfl

namespace Network

variable {client : Client} {net : Network client} {w : World}

variable (net) in
/-- A payment for one address leaves the store alone, and its receipt has the address if there is
a proof to be had. -/
theorem run_payForContentAddrs (dataType : DataTypes) (name : XorName) (size : Nat)
    (paymentOption : PaymentOption) (w : World) : ∃ r w', w.Still w' ∧
      net.run (client.payForContentAddrs dataType [(name, size)] paymentOption) w = (r, w') ∧
      ∀ receipt free, r = .ok (receipt, free) → (name ∈ receipt ↔ paymentOption.Proves w name) := by
  have hasks := asks_payForContentAddrs client dataType [(name, size)] paymentOption
  obtain ⟨es, hruns, hhonest⟩ := net.exists_honest_run hasks w
  generalize hresult : net.run (client.payForContentAddrs dataType [(name, size)] paymentOption) w
    = result at hruns
  obtain ⟨r, w'⟩ := result
  refine ⟨r, w', by simpa only [hresult] using net.run_still hasks w, rfl, ?_⟩
  rintro receipt free rfl
  cases paymentOption with
  | receipt own =>
    obtain rfl : own = receipt := congrArg Prod.fst (Except.ok.inj (congrArg Prod.fst hresult))
    rfl
  | wallet wallet =>
    have hprices : PricesComplete es := fun metrics amounts hmem => hhonest _ hmem
    have hrecord : w.record client.crypto (.chunkAddress name) = none ↔
        w.store name.toList = none := Option.map_eq_none_iff
    obtain ⟨hall, hquoted⟩ := runs_pay_ok hprices hruns
    constructor
    · intro hmem
      obtain ⟨e, he, hquotes⟩ := hquoted name hmem
      exact hrecord.mp ((hhonest e he).quoted hquotes)
    · intro hnone
      refine (hall _ (List.mem_singleton_self _)).resolve_right fun hreported => ?_
      obtain ⟨e, he, hreports⟩ := List.countP_pos_iff.mp (Nat.lt_of_lt_of_le (by decide) hreported)
      exact (hhonest e he).reported hreports (hrecord.mpr hnone)

end Network

/-! ### Puts -/

namespace World

/-- A key holds a new value; nothing else has changed, and it is no earlier. -/
structure Stored (w : World) (key : RecordKey) (value : RecordValue) (w' : World) : Prop where
  store : w'.store = Function.update w.store key (some value)
  drawn : w'.drawn = w.drawn
  clock : w.clock ≤ w'.clock

variable {w w' w'' : World} {key : RecordKey} {value : RecordValue}

theorem Still.stored (h : w.Still w') (h' : w'.Stored key value w'') : w.Stored key value w'' :=
  ⟨by rw [h'.store, h.store], h'.drawn.trans h.drawn, h.clock.trans h'.clock⟩

variable (h : w.Stored key value w')

include h

theorem Stored.still (h' : w'.Still w'') : w.Stored key value w'' :=
  ⟨h'.store.trans h.store, h'.drawn.trans h.drawn, h.clock.trans h'.clock⟩

theorem Stored.again (h' : w'.Stored key value w'') : w.Stored key value w'' :=
  ⟨by rw [h'.store, h.store, Function.update_idem], h'.drawn.trans h.drawn,
    h.clock.trans h'.clock⟩

theorem Stored.same : w'.store key = some value := by
  rw [h.store, Function.update_self]

theorem Stored.of_ne {other : RecordKey} (hne : other ≠ key) : w'.store other = w.store other := by
  rw [h.store, Function.update_of_ne hne]

theorem Stored.of_store_ne {other : RecordKey}
    (hne : w.store other ≠ w.store key) : w'.store other = w.store other :=
  h.of_ne fun heq => hne (congrArg w.store heq)

omit h

theorem Stored.of_name_ne {name other : XorName} (h : w.Stored name.toList value w')
    (hne : other ≠ name) : w'.store other.toList = w.store other.toList :=
  h.of_ne fun heq => hne (Vector.toList_inj.mp heq)

variable {item : Item}

theorem stored_put {record : Record} (hitem : sentItem record.value = some item) :
    w.Stored record.key (Item.takenIn (w.store record.key) item) (w.put record).tick := by
  rw [World.put, hitem]
  exact ⟨rfl, rfl, Nat.le_succ _⟩

/-- No two of the names are the same, and nothing is stored under them. -/
def Unused (w : World) (names : List XorName) : Prop :=
  names.Nodup ∧ ∀ name ∈ names, w.store name.toList = none

theorem Unused.sublist {names names' : List XorName} (h : w.Unused names)
    (hsub : names'.Sublist names) : w.Unused names' :=
  ⟨h.1.sublist hsub, fun n hn => h.2 n (hsub.subset hn)⟩

end World

namespace Network

variable {client : Client} (net : Network client) {ε ε' α β : Type}

/-- A put may fail from the given time on: because one does, or because none is attempted. -/
def PutsCanFail (strategy : Strategy) (time : Nat) : Prop :=
  strategy.putRetry.backoff = 0 ∨ ∃ later, time ≤ later ∧ net.putFails later ≠ none

variable {net}

theorem PutsCanFail.mono {time time' : Nat} (h : time ≤ time')
    (hfail : net.PutsCanFail strategy time') : net.PutsCanFail strategy time :=
  hfail.imp_right fun ⟨later, hlater, hfails⟩ => ⟨later, h.trans hlater, hfails⟩

variable (net) in
/-- A program puts one value, or fails and leaves everything as it was. -/
def Puts (p : ClientM ε α) (w : World) (strategy : Strategy) (key : RecordKey)
    (value : RecordValue) : Prop :=
  (∃ a w', net.run p w = (.ok a, w') ∧ w.Stored key value w') ∨
    ∃ e w', net.run p w = (.error e, w') ∧ w.Still w' ∧ net.PutsCanFail strategy w.clock

variable {w w' : World} {strategy : Strategy} {key : RecordKey} {value : RecordValue}

variable {p : ClientM ε α}

theorem Puts.mapError (h : net.Puts p w strategy key value) (f : ε → ε') :
    net.Puts (mapError f p) w strategy key value := by
  rcases h with ⟨a, w', hrun, hstored⟩ | ⟨e, w', hrun, hstill⟩
  · exact .inl ⟨a, w', runIn_mapError_of_ok hrun, hstored⟩
  · exact .inr ⟨f e, w', runIn_mapError_of_error hrun, hstill⟩

theorem Puts.stored (h : net.Puts p w strategy key value) {a : α}
    (hrun : net.run p w = (.ok a, w')) :
    w.Stored key value w' := by
  rcases h with ⟨_, w₁, hput, hstored⟩ | ⟨e, w₁, hput, -⟩
  · rw [hrun] at hput
    cases hput
    exact hstored
  · rw [hrun] at hput
    cases congrArg Prod.fst hput

theorem Puts.after {q : ClientM ε α} (hrun : net.run p w = net.run q w') (hstill : w.Still w')
    (h : net.Puts q w' strategy key value) : net.Puts p w strategy key value := by
  rcases h with ⟨a, w'', hq, hstored⟩ | ⟨e, w'', hq, hstill', hfail⟩
  · exact .inl ⟨a, w'', hrun.trans hq, hstill.stored hstored⟩
  · exact .inr ⟨e, w'', hrun.trans hq, hstill.trans hstill', hfail.mono hstill.clock⟩

theorem Puts.andReturn (h : net.Puts p w strategy key value) (f : α → β) :
    net.Puts (p >>= fun a => pure (f a)) w strategy key value := by
  rcases h with ⟨a, w', hrun, hstored⟩ | ⟨e, w', hrun, hstill⟩
  · exact .inl ⟨f a, w', runIn_bind_of_ok hrun, hstored⟩
  · exact .inr ⟨e, w', runIn_bind_of_error hrun, hstill⟩

theorem run_withRetries_of_error {action : ClientM NetworkError α} {e : NetworkError}
    (h : net.run action w = (.error e, w')) (attempts : Nat) :
    net.run (withRetries action (attempts + 1)) w
      = if e.cannotRetry ∨ attempts = 0 then (.error e, w')
        else net.run (withRetries action attempts) w' := by
  refine (runIn_attempt_bind h).trans ?_
  by_cases hgive : e.cannotRetry ∨ attempts = 0
  · simp only [if_pos hgive]
    rfl
  · simp only [if_neg hgive]
    rfl

variable (net) in
theorem run_putRecord (record : Record) (targets : List PeerId) (quorum : Quorum) (w : World) :
    net.run (do fromExcept (← putRecord record targets quorum)) w
      = net.answer w (.putRecord record targets quorum) := rfl

theorem puts_putRecordWithRetries {targets : List PeerId}
    (hitem : sentItem record.value = some item) (strategy : Strategy)
    (haccepts : w.accepts record = true) :
    net.Puts (putRecordWithRetries record targets strategy) w strategy record.key
      (Item.takenIn (w.store record.key) item) := by
  unfold Puts PutsCanFail putRecordWithRetries
  generalize strategy.putRetry.backoff = attempts
  induction attempts generalizing w with
  | zero => exact .inr ⟨_, w, rfl, .refl w, .inl rfl⟩
  | succ attempts ih =>
    have hput := net.run_putRecord record targets strategy.putQuorum w
    cases hfails : net.putFails w.clock with
    | none =>
      have hanswer : net.answer w (.putRecord record targets strategy.putQuorum)
          = (.ok (), (w.put record).tick) := by simp only [answer, haccepts, if_true, hfails]
      exact .inl ⟨(), _, (runIn_attempt_bind (hput.trans hanswer)).trans rfl,
        World.stored_put hitem⟩
    | some e =>
      have hanswer : net.answer w (.putRecord record targets strategy.putQuorum)
          = (.error e, w.tick) := by simp only [answer, haccepts, if_true, hfails]
      have hlater : ∃ later, w.clock ≤ later ∧ net.putFails later ≠ none :=
        ⟨w.clock, le_rfl, by simp [hfails]⟩
      rw [run_withRetries_of_error (hput.trans hanswer)]
      split
      · exact .inr ⟨e, w.tick, rfl, w.still_tick, .inr hlater⟩
      · rcases ih (w := w.tick) haccepts with ⟨a, w', hrun, hstored⟩ | ⟨e', w', hrun, hstill, -⟩
        · exact .inl ⟨a, w', hrun, w.still_tick.stored hstored⟩
        · exact .inr ⟨e', w', hrun, w.still_tick.trans hstill, .inr hlater⟩

variable (net) in
theorem run_putRecordWithRetries_refused (targets : List PeerId) (strategy : Strategy)
    (hrefused : w.accepts record = false) :
    ∃ e, net.Reads (putRecordWithRetries record targets strategy) w (.error e) := by
  rw [putRecordWithRetries]
  generalize strategy.putRetry.backoff = attempts
  induction attempts generalizing w with
  | zero => exact ⟨_, w, .refl w, rfl⟩
  | succ attempts ih =>
    have hput : net.run (do fromExcept (← putRecord record targets strategy.putQuorum)) w
        = (.error (net.refusal w.clock), w.tick) := by
      rw [run_putRecord]
      simp only [answer, hrefused]
      rfl
    unfold Reads
    rw [run_withRetries_of_error hput]
    split
    · exact ⟨_, _, w.still_tick, rfl⟩
    · obtain ⟨e, w', hstill, hrun⟩ := ih (w := w.tick) hrefused
      exact ⟨e, w', w.still_tick.trans hstill, hrun⟩

variable (net) in
theorem puts_putPaid (address : NetworkAddress) (dataType : DataTypes) (item : Item)
    (receipt : Receipt) (proof : ProofOfPayment) (strategy : Strategy) (w : World) :
    net.Puts (client.putPaid address dataType item receipt proof strategy) w strategy
      (address.toRecordKey client.crypto)
      (Item.takenIn (w.store (address.toRecordKey client.crypto)) item) :=
  (puts_putRecordWithRetries rfl strategy rfl).mapError _

variable (net) in
theorem puts_putUnpaid (hitem : sentItem value = some item) (address : NetworkAddress)
    (payment : Option Receipt) (strategy : Strategy)
    (hthere : (w.store (address.toRecordKey client.crypto)).isSome = true) :
    net.Puts (client.putUnpaid address value payment strategy) w strategy
      (address.toRecordKey client.crypto)
      (Item.takenIn (w.store (address.toRecordKey client.crypto)) item) := by
  refine Puts.after (runIn_bind_of_ok rfl) w.still_tick ?_
  have haccepts : w.tick.accepts ⟨address.toRecordKey client.crypto, value⟩ = true := by
    rw [World.accepts, Bool.or_eq_true]
    exact .inr hthere
  exact (puts_putRecordWithRetries hitem strategy haccepts).mapError _

/-! ### Paying for an item and putting it -/

/-- A payment for one address works; its price is less than half of what an amount can be, so
that two of them can be added up. -/
def PaysFor (net : Network client) (dataType : DataTypes) (name : XorName) (size : Nat)
    (paymentOption : PaymentOption) (w : World) : Prop :=
  ∃ receipt free,
    (net.run (client.payForContentAddrs dataType [(name, size)] paymentOption) w).1
      = .ok (receipt, free) ∧
    ∀ proof price, receipt.lookup name = some (proof, price) → price.toNat < 2 ^ 255

theorem paying_cases (net : Network client) (dataType : DataTypes) (name : XorName) (size : Nat)
    (paymentOption : PaymentOption) (w : World) :
    (∃ e w', net.run (client.payForContentAddrs dataType [(name, size)] paymentOption) w
        = (.error e, w') ∧ w.Still w' ∧ ¬ net.PaysFor dataType name size paymentOption w) ∨
    ∃ receipt free w',
      net.run (client.payForContentAddrs dataType [(name, size)] paymentOption) w
        = (.ok (receipt, free), w') ∧ w.Still w' ∧
      (name ∈ receipt ↔ paymentOption.Proves w name) ∧
      (net.PaysFor dataType name size paymentOption w →
        ∀ proof price, receipt.lookup name = some (proof, price) → price.toNat < 2 ^ 255) := by
  obtain ⟨r, w', hstill, hpay, hproof⟩ := net.run_payForContentAddrs dataType name size
    paymentOption w
  cases r with
  | error e =>
    refine .inl ⟨e, w', hpay, hstill, ?_⟩
    rintro ⟨receipt, free, hok, -⟩
    rw [hpay] at hok
    cases hok
  | ok paid =>
    obtain ⟨receipt, free⟩ := paid
    refine .inr ⟨receipt, free, w', hpay, hstill, hproof receipt free rfl, ?_⟩
    rintro ⟨receipt', free', hok, hprice⟩
    rw [hpay] at hok
    cases hok
    exact hprice

def Pays (net : Network client) (paymentOption : PaymentOption) (time : Nat) : Prop :=
  ∀ dataType name size w, time ≤ w.clock → net.PaysFor dataType name size paymentOption w

theorem Pays.mono {time time' : Nat} (h : time ≤ time')
    (hpays : net.Pays paymentOption time) : net.Pays paymentOption time' :=
  fun dataType name size w hw => hpays dataType name size w (h.trans hw)

variable {paymentOption : PaymentOption} (entry : GraphEntry)

variable (net w paymentOption) in
/-- With a proof of payment an entry is put, and without one it is taken to be there. -/
theorem run_graphEntryPut :
    (∃ price w', net.run (client.graphEntryPut entry paymentOption) w
        = (.ok (price, entry.owner), w') ∧
      w.Stored (ownerName client.crypto entry.owner).toList
        (Item.takenIn (w.under client.crypto entry.owner) (.graphEntry entry)) w' ∧
      paymentOption.Proves w (ownerName client.crypto entry.owner) ∧
      (net.Pays paymentOption w.clock → price.toNat < 2 ^ 255)) ∨
    ∃ e w', net.run (client.graphEntryPut entry paymentOption) w = (.error e, w') ∧ w.Still w' ∧
      (e = .alreadyExists entry.owner ∧
          ¬ paymentOption.Proves w (ownerName client.crypto entry.owner) ∨
        (∀ owner, e ≠ .alreadyExists owner) ∧ (net.Pays paymentOption w.clock →
          net.PutsCanFail client.graphEntry w.clock)) := by
  rcases net.paying_cases .graphEntry (ownerName client.crypto entry.owner)
      (entry.size client.graphEntryStructSize) paymentOption w with
    ⟨e, w₁, hpay, hstill, hnot⟩ | ⟨receipt, free, w₁, hpay, hstill, hproof, hprice⟩
  · refine .inr ⟨.pay e, w₁, ?_, hstill, .inr ⟨fun _ => nofun,
      fun hpays => absurd (hpays _ _ _ w le_rfl) hnot⟩⟩
    exact runIn_bind_of_error (runIn_mapError_of_error hpay)
  have hpaid := runIn_mapError_of_ok (f := GraphPutError.pay) hpay
  cases hlookup : receipt.lookup (ownerName client.crypto entry.owner) with
  | none =>
    refine .inr ⟨.alreadyExists entry.owner, w₁, (runIn_bind_of_ok hpaid).trans ?_, hstill,
      .inl ⟨rfl, fun hproves => ?_⟩⟩
    · simp only [hlookup]
      rfl
    · exact AList.lookup_eq_none.mp hlookup (hproof.mpr hproves)
  | some paid =>
    have hrest : net.run (client.graphEntryPut entry paymentOption) w
        = net.run (do
            mapError .putError (client.putPaid (.graphEntryAddress entry.owner) .graphEntry
              (.graphEntry entry) receipt paid.1 client.graphEntry)
            return (paid.2, entry.owner)) w₁ := by
      refine (runIn_bind_of_ok hpaid).trans ?_
      simp only [hlookup]
      rfl
    rw [hrest]
    rcases net.puts_putPaid (.graphEntryAddress entry.owner) .graphEntry
        (.graphEntry entry) receipt paid.1 client.graphEntry w₁ with
      ⟨_, w₂, hput, hstored⟩ | ⟨e, w₂, hput, hstill', hfail⟩
    · rw [hstill.store] at hstored
      exact .inl ⟨paid.2, w₂, runIn_bind_of_ok (runIn_mapError_of_ok hput),
        hstill.stored hstored, hproof.mp (Table.mem_iff_lookup.mpr ⟨_, hlookup⟩),
        fun hpays => hprice (hpays _ _ _ w le_rfl) _ _ hlookup⟩
    · exact .inr ⟨.putError e, w₂, runIn_bind_of_error (runIn_mapError_of_error hput),
        hstill.trans hstill', .inr ⟨fun _ => nofun, fun _ => hfail.mono hstill.clock⟩⟩

variable {result : Amount × PublicKey}

theorem stored_of_graphEntryPut {entry : GraphEntry}
    (h : net.run (client.graphEntryPut entry paymentOption) w = (.ok result, w')) :
    result.2 = entry.owner ∧ w.Stored (ownerName client.crypto entry.owner).toList
      (Item.takenIn (w.under client.crypto entry.owner) (.graphEntry entry)) w' := by
  rcases net.run_graphEntryPut w paymentOption entry with
    ⟨price, w₁, hput, hstored, -⟩ | ⟨e, w₁, hput, -⟩
  · rw [h] at hput
    obtain ⟨hresult, rfl⟩ := Prod.mk.inj hput
    exact ⟨by rw [Except.ok.inj hresult], hstored⟩
  · rw [h] at hput
    cases congrArg Prod.fst hput

/-! ### New pointers and scratchpads -/

section Items

variable (net) (address : NetworkAddress) (name : XorName) (dataType : DataTypes) (item : Item)
  (value : RecordValue) (strategy : Strategy) (w : World)

theorem run_putItem_of_lookup_none {receipt : Receipt} (hlookup : receipt.lookup name = none)
    (hunpaid : isPaid value = false) (hnone : w.store (address.toRecordKey client.crypto) = none) :
    ∃ e w', net.run (client.putItem address name dataType item value receipt strategy) w
      = (.error e, w') ∧ w.Still w' := by
  have hrefused : w.tick.accepts ⟨address.toRecordKey client.crypto, value⟩ = false := by
    simp [World.accepts, hunpaid, World.tick, hnone]
  let targets := net.closestPeers w.clock address quotingCandidates
  obtain ⟨e, w', hstill, hput⟩ := net.run_putRecordWithRetries_refused targets strategy hrefused
  have hunpaidPut : net.run (client.putUnpaid address value (some receipt) strategy) w
      = (.error ⟨address, e, some receipt⟩, w') :=
    (runIn_bind_of_ok rfl).trans
      (runIn_mapError_of_error hput)
  rw [putItem, hlookup]
  exact ⟨_, w', runIn_bind_of_error hunpaidPut, w.still_tick.trans hstill⟩

end Items

variable (net) in
/-- A program puts one new item if there is a proof of payment for it, or fails and leaves
everything as it was. -/
def PutsPaid (p : ClientM ε (Amount × PublicKey)) (w : World) (strategy : Strategy)
    (name : XorName) (value : RecordValue) (owner : PublicKey) (paymentOption : PaymentOption) :
    Prop :=
  (∃ price w', net.run p w = (.ok (price, owner), w') ∧ w.Stored name.toList value w' ∧
    paymentOption.Proves w name ∧ (net.Pays paymentOption w.clock → price.toNat < 2 ^ 255)) ∨
  ∃ e w', net.run p w = (.error e, w') ∧ w.Still w' ∧
    (paymentOption.Proves w name → net.Pays paymentOption w.clock →
      net.PutsCanFail strategy w.clock)

theorem PutsPaid.stored {p : ClientM ε (Amount × PublicKey)} {owner : PublicKey}
    (h : net.PutsPaid p w strategy name value owner paymentOption)
    (hrun : net.run p w = (.ok result, w')) : w.Stored name.toList value w' := by
  rcases h with ⟨price, w₁, hput, hstored, -⟩ | ⟨e, w₁, hput, -⟩
  · rw [hrun] at hput
    cases hput
    exact hstored
  · rw [hrun] at hput
    cases congrArg Prod.fst hput

theorem PutsPaid.afterTick {p q : ClientM ε (Amount × PublicKey)} {owner : PublicKey}
    (hrun : net.run p w = net.run q w.tick)
    (h : net.PutsPaid q w.tick strategy name value owner paymentOption) :
    net.PutsPaid p w strategy name value owner paymentOption := by
  have hclock : w.clock ≤ w.tick.clock := w.still_tick.clock
  rcases h with ⟨price, w', hq, hstored, hproves, hprice⟩ | ⟨e, w', hq, hstill, hfail⟩
  · exact .inl ⟨price, w', hrun.trans hq, w.still_tick.stored hstored,
      (PaymentOption.proves_congr w.still_tick.store).mp hproves,
      fun hpays => hprice (hpays.mono hclock)⟩
  · refine .inr ⟨e, w', hrun.trans hq, w.still_tick.trans hstill, fun hproves hpays => ?_⟩
    have hproves' := (PaymentOption.proves_congr w.still_tick.store).mpr hproves
    exact (hfail hproves' (hpays.mono hclock)).mono hclock

variable (net) in
theorem putsPaid_payAndPut (address : NetworkAddress) (name : XorName) (dataType : DataTypes)
    (item : Item) (value : RecordValue) (strategy : Strategy) (w : World) (size : Nat)
    (owner : PublicKey) (inPay : PayError → ε) (inPut : PutFailure → ε)
    (paymentOption : PaymentOption)
    (hkey : address.toRecordKey client.crypto = name.toList) (hunpaid : isPaid value = false)
    (hnone : w.store name.toList = none) :
    net.PutsPaid (do
      let (paymentProofs, _) ←
        mapError inPay (client.payForContentAddrs dataType [(name, size)] paymentOption)
      let totalCost ←
        mapError inPut (client.putItem address name dataType item value paymentProofs strategy)
      return (totalCost, owner)) w strategy name (Item.takenIn none item) owner paymentOption := by
  rcases net.paying_cases dataType name size paymentOption w with
    ⟨e, w₁, hpay, hstill, hnot⟩ | ⟨receipt, free, w₁, hpay, hstill, hproof, hprice⟩
  · refine .inr ⟨inPay e, w₁, ?_, hstill, fun _ hpays =>
      absurd (hpays _ _ _ w le_rfl) hnot⟩
    exact runIn_bind_of_error (runIn_mapError_of_error hpay)
  · have hpaid := runIn_mapError_of_ok (f := inPay) hpay
    have hnone₁ : w₁.store (address.toRecordKey client.crypto) = none := by
      rw [hkey, hstill.store, hnone]
    cases hlookup : receipt.lookup name with
    | none =>
      obtain ⟨e, w₂, hput, hstill'⟩ := net.run_putItem_of_lookup_none address name dataType item
        value strategy w₁ hlookup hunpaid hnone₁
      refine .inr ⟨inPut e, w₂, (runIn_bind_of_ok hpaid).trans
        (runIn_bind_of_error (runIn_mapError_of_error hput)),
        hstill.trans hstill', fun hproves => ?_⟩
      exact absurd (hproof.mpr hproves) (AList.lookup_eq_none.mp hlookup)
    | some paid =>
      have hproves : paymentOption.Proves w name :=
        hproof.mp (Table.mem_iff_lookup.mpr ⟨_, hlookup⟩)
      have hitem : net.run (client.putItem address name dataType item value receipt strategy) w₁
          = net.run (do
              client.putPaid address dataType item receipt paid.1 strategy
              return paid.2) w₁ := by
        rw [putItem, hlookup]
      rcases net.puts_putPaid address dataType item receipt paid.1 strategy w₁ with
        ⟨_, w₂, hput, hstored⟩ | ⟨e, w₂, hput, hstill', hfail⟩
      · rw [hnone₁, hkey] at hstored
        have hput := runIn_mapError_of_ok (f := inPut) (hitem.trans (runIn_bind_of_ok hput))
        exact .inl ⟨paid.2, w₂, (runIn_bind_of_ok hpaid).trans (runIn_bind_of_ok hput),
          hstill.stored hstored, hproves, fun hpays => hprice (hpays _ _ _ w le_rfl) _ _ hlookup⟩
      · have hput := runIn_mapError_of_error (f := inPut) (hitem.trans (runIn_bind_of_error hput))
        exact .inr ⟨inPut e, w₂, (runIn_bind_of_ok hpaid).trans (runIn_bind_of_error hput),
          hstill.trans hstill', fun _ _ => hfail.mono hstill.clock⟩

/-! ### Pointers -/

section Pointers

variable {owner : SecretKey} {target : PointerTarget}

theorem run_pointerCheckExistence (owner : PublicKey) :
    net.run (client.pointerCheckExistence owner) w
      = (.ok (w.under client.crypto owner).isSome, w.tick) :=
  net.run_checkExistence (.pointerAddress owner) client.pointer _ w

variable (net) in
theorem putsPaid_pointerCreate (target : PointerTarget) (paymentOption : PaymentOption)
    (h : w.under client.crypto (client.crypto.blsPublicKey owner) = none) :
    net.PutsPaid (client.pointerCreate owner target paymentOption) w client.pointer
      (ownerName client.crypto (client.crypto.blsPublicKey owner))
      (.ofPointer (.new client.crypto client.rmpTarget owner 0 target))
      (client.crypto.blsPublicKey owner) paymentOption := by
  let pointer := Pointer.new client.crypto client.rmpTarget owner 0 target
  have hput : net.run (client.pointerCreate owner target paymentOption) w
      = net.run (client.pointerPut pointer paymentOption) w.tick := by
    refine (runIn_bind_of_ok (run_pointerCheckExistence _)).trans ?_
    rw [h]
    rfl
  exact .afterTick hput (net.putsPaid_payAndPut (.pointerAddress pointer.owner)
    (ownerName client.crypto pointer.owner) .pointer (.pointer pointer) (.ofPointer pointer)
    client.pointer w.tick client.pointerStructSize pointer.owner PointerPutError.pay .putError
    paymentOption rfl rfl h)

theorem puts_pointerUpdate {pointer : Pointer}
    (h : w.under client.crypto (client.crypto.blsPublicKey owner) = some (.ofPointer pointer))
    (hsigned : pointer.verifySignature client.crypto client.rmpTarget = true) :
    net.Puts (client.pointerUpdate owner target) w client.pointer
      (ownerName client.crypto (client.crypto.blsPublicKey owner)).toList
      (.ofPointer (.new client.crypto client.rmpTarget owner (pointer.counter + 1) target)) := by
  obtain ⟨w₁, hstill, hget⟩ := net.run_pointerGet h hsigned
  let next := Pointer.new client.crypto client.rmpTarget owner (pointer.counter + 1) target
  let address := NetworkAddress.pointerAddress (client.crypto.blsPublicKey owner)
  have hthere : (w₁.store (address.toRecordKey client.crypto)).isSome = true := by
    rw [hstill.store]
    exact Option.isSome_iff_exists.mpr ⟨_, h⟩
  have hitem : sentItem (.ofPointer next) = some (.pointer next) := rfl
  have hput : net.Puts (client.pointerUpdateFrom pointer owner target) w₁ client.pointer
      (address.toRecordKey client.crypto) (.ofPointer next) :=
    ((net.puts_putUnpaid hitem address none client.pointer hthere).mapError
      PointerPutError.putError).andReturn fun _ => next
  exact .after ((runIn_attempt_bind hget).trans rfl) hstill (hput.andReturn fun _ => ())

end Pointers

/-! ### Scratchpads -/

section Scratchpads

variable {owner : SecretKey} {contentType : UInt64} {data : Bytes} {scratchpad : Scratchpad}

theorem run_scratchpadCheckExistence (owner : PublicKey) :
    net.run (client.scratchpadCheckExistence owner) w
      = (.ok (w.under client.crypto owner).isSome, w.tick) :=
  net.run_checkExistence (.scratchpadAddress owner) client.scratchpad _ w

variable (net) in
/-- A new scratchpad that passes its checks is put if there is a proof of payment for it. -/
theorem putsPaid_scratchpadPut (hverify : client.scratchpadVerify scratchpad = .ok ())
    (paymentOption : PaymentOption) (hnone : w.under client.crypto scratchpad.owner = none) :
    net.PutsPaid (client.scratchpadPut scratchpad paymentOption) w client.scratchpad
      (ownerName client.crypto scratchpad.owner) (.ofScratchpad scratchpad) scratchpad.owner
      paymentOption := by
  have hput := net.putsPaid_payAndPut (.scratchpadAddress scratchpad.owner)
    (ownerName client.crypto scratchpad.owner) .scratchpad (.scratchpad scratchpad)
    (.ofScratchpad scratchpad) client.scratchpad w (scratchpad.size client.scratchpadStructSize)
    scratchpad.owner ScratchpadPutError.pay .putError paymentOption rfl rfl hnone
  rw [scratchpadPut, hverify]
  exact hput

theorem stored_of_scratchpadPut
    (hnone : w.under client.crypto scratchpad.owner = none)
    (hrun : net.run (client.scratchpadPut scratchpad paymentOption) w = (.ok result, w')) :
    client.scratchpadVerify scratchpad = .ok () ∧
      w.Stored (ownerName client.crypto scratchpad.owner).toList (.ofScratchpad scratchpad) w' := by
  cases hverify : client.scratchpadVerify scratchpad with
  | error e =>
    rw [scratchpadPut, hverify] at hrun
    cases congrArg Prod.fst hrun
  | ok _ => exact ⟨rfl, (net.putsPaid_scratchpadPut hverify paymentOption hnone).stored hrun⟩

/-- What is drawn for the encryption of a scratchpad. -/
abbrev drawnNext (net : Network client) (w : World) : World := w.draw (net.random w.drawn.length)

theorem still_drawnNext (h : w.Still w') :
    (net.drawnNext w).Still (net.drawnNext w').tick := by
  refine ⟨h.store, ?_, Nat.le_succ_of_le h.clock⟩
  show w'.drawn ++ [net.random w'.drawn.length] = w.drawn ++ [net.random w.drawn.length]
  rw [h.drawn]

variable (hnone : w.under client.crypto (client.crypto.blsPublicKey owner) = none)

include hnone

theorem run_scratchpadCreate :
    net.run (client.scratchpadCreate owner contentType data paymentOption) w
      = net.run (client.scratchpadPut (.new client.crypto (net.random w.drawn.length) owner
          contentType data 0) paymentOption) (net.drawnNext w.tick).tick := by
  refine (runIn_bind_of_ok (run_scratchpadCheckExistence _)).trans ?_
  rw [hnone]
  rfl

theorem stored_of_scratchpadCreate
    (hrun : net.run (client.scratchpadCreate owner contentType data paymentOption) w
      = (.ok result, w')) : ∃ scratchpad, scratchpad = Scratchpad.new client.crypto
        (net.random w.drawn.length) owner contentType data 0 ∧
      client.scratchpadVerify scratchpad = .ok () ∧
      (net.drawnNext w).Stored (ownerName client.crypto (client.crypto.blsPublicKey owner)).toList
        (.ofScratchpad scratchpad) w' := by
  rw [run_scratchpadCreate hnone] at hrun
  obtain ⟨hverify, hstored⟩ := stored_of_scratchpadPut hnone hrun
  exact ⟨_, rfl, hverify, (still_drawnNext w.still_tick).stored hstored⟩

omit hnone

theorem stored_of_scratchpadPutUpdate
    (hthere : (w.under client.crypto scratchpad.owner).isSome = true)
    (hrun : net.run (client.scratchpadPutUpdate scratchpad) w = (.ok (), w')) :
    client.scratchpadVerify scratchpad = .ok () ∧
      w.Stored (ownerName client.crypto scratchpad.owner).toList (.ofScratchpad scratchpad) w' := by
  have hitem : sentItem (.ofScratchpad scratchpad) = some (.scratchpad scratchpad) := rfl
  have hput := (net.puts_putUnpaid hitem (.scratchpadAddress scratchpad.owner) none
    client.scratchpad hthere).mapError ScratchpadPutError.putError
  rw [scratchpadPutUpdate] at hrun
  cases hverify : client.scratchpadVerify scratchpad with
  | error e =>
    rw [hverify] at hrun
    cases congrArg Prod.fst hrun
  | ok _ =>
    rw [hverify] at hrun
    exact ⟨rfl, hput.stored hrun⟩

theorem stored_of_scratchpadUpdate
    (h : w.under client.crypto (client.crypto.blsPublicKey owner)
      = some (.ofScratchpad scratchpad)) (hverify : client.scratchpadVerify scratchpad = .ok ())
    (hrun : net.run (client.scratchpadUpdate owner contentType data) w = (.ok (), w')) :
    ∃ next, next = Scratchpad.new client.crypto (net.random w.drawn.length) owner contentType
        data (scratchpad.counter + 1) ∧
      client.scratchpadVerify next = .ok () ∧
      (net.drawnNext w).Stored (ownerName client.crypto (client.crypto.blsPublicKey owner)).toList
        (.ofScratchpad next) w' := by
  obtain ⟨w₁, hstill, hget⟩ := net.run_scratchpadGet h hverify
  have hfound : net.run (client.scratchpadUpdate owner contentType data) w
      = net.run (do
          let _ ← client.scratchpadUpdateFrom scratchpad.counter owner contentType data
          return ()) w₁ := (runIn_attempt_bind hget).trans rfl
  rw [hfound] at hrun
  obtain ⟨_, w₂, hfrom, hlast⟩ := runIn_bind_eq_ok.mp hrun
  obtain rfl : w₂ = w' := congrArg Prod.snd hlast
  let next := Scratchpad.new client.crypto (net.random w₁.drawn.length) owner contentType data
    (scratchpad.counter + 1)
  have hdrawn : net.run (client.scratchpadUpdateFrom scratchpad.counter owner contentType data) w₁
      = net.run (do
          client.scratchpadPutUpdate next
          return next) (net.drawnNext w₁).tick := rfl
  obtain ⟨_, w₃, hput, hlast'⟩ := runIn_bind_eq_ok.mp (hdrawn.symm.trans hfrom)
  obtain rfl : w₃ = w₂ := congrArg Prod.snd hlast'
  have hthere : ((net.drawnNext w₁).tick.under client.crypto next.owner).isSome = true := by
    show (w₁.store _).isSome = true
    rw [hstill.store]
    exact Option.isSome_iff_exists.mpr ⟨_, h⟩
  obtain ⟨hnext, hstored⟩ := stored_of_scratchpadPutUpdate hthere hput
  exact ⟨next, by rw [← hstill.drawn], hnext, (still_drawnNext hstill).stored hstored⟩

end Scratchpads

/-! ### Programs that are cut off -/

/-- A request that puts nothing but one item under one key, and draws nothing. -/
def MayPut (key : RecordKey) (item : Item) : ClientRequest → Prop
  | .putRecord record _ _ => record.key = key ∧ sentItem record.value = some item
  | .random => False
  | _ => True

section MayPut

variable {item : Item}

theorem mayPut_of_readsOnly {request : ClientRequest} (h : ReadsOnly request) :
    MayPut key item request := by
  cases request
  case putRecord => exact absurd h id
  case random => exact absurd h id
  all_goals trivial

variable (net) in
theorem answer_of_mayPut {request : ClientRequest} (h : MayPut key item request) (w : World) :
    w.Still (net.answer w request).2 ∨
      w.Stored key (Item.takenIn (w.store key) item) (net.answer w request).2 := by
  cases request
  case putRecord record targets quorum =>
    obtain ⟨rfl, hitem⟩ := h
    cases haccepts : w.accepts record with
    | false =>
      refine .inl ?_
      simp only [answer, haccepts]
      exact w.still_tick
    | true => cases hfails : net.putFails w.clock with
        | none =>
          refine .inr ?_
          simp only [answer, haccepts, if_true, hfails]
          exact World.stored_put hitem
        | some e =>
          refine .inl ?_
          simp only [answer, haccepts, if_true, hfails]
          exact w.still_tick
  case random => exact absurd h id
  all_goals exact .inl w.still_tick

variable (net) in
/-- Wherever a program is cut off that may put one item, the item is stored or nothing has
happened. -/
theorem stopped_of_mayPut {p : ClientM ε α} (h : Asks (MayPut key item) p) (n : Nat) (w : World)
    (hagain : Item.takenIn (some (Item.takenIn (w.store key) item)) item
      = Item.takenIn (w.store key) item) :
    w.Still (net.stopped n p w) ∨
      w.Stored key (Item.takenIn (w.store key) item) (net.stopped n p w) := by
  refine stopped_invariant (I := fun s => w.Still s ∨
    w.Stored key (Item.takenIn (w.store key) item) s) h ?_ n (.inl (.refl w))
  rintro s request (hstill | hstored) hmay
  · rcases net.answer_of_mayPut hmay s with hnext | hnext
    · exact .inl (hstill.trans hnext)
    · rw [hstill.store] at hnext
      exact .inr (hstill.stored hnext)
  · rcases net.answer_of_mayPut hmay s with hnext | hnext
    · exact .inr (hstored.still hnext)
    · rw [hstored.same, hagain] at hnext
      exact .inr (hstored.again hnext)

variable (address : NetworkAddress)

variable (client) in
theorem asks_putPaid (dataType : DataTypes) (item : Item)
    (receipt : Receipt) (proof : ProofOfPayment) (strategy : Strategy) :
    Asks (MayPut (address.toRecordKey client.crypto) item)
      (client.putPaid address dataType item receipt proof strategy) :=
  asks_mapError (asks_withRetries (asks_call ⟨rfl, rfl⟩) _)

variable (client) in
theorem asks_putUnpaid (hitem : sentItem value = some item)
    (payment : Option Receipt) (strategy : Strategy) :
    Asks (MayPut (address.toRecordKey client.crypto) item)
      (client.putUnpaid address value payment strategy) := by
  refine asks_bind (asks_mapError (asks_withRetries (asks_call trivial) _)) fun targets => ?_
  exact asks_mapError (asks_withRetries (asks_call ⟨rfl, hitem⟩) _)

variable (client) in
theorem asks_graphEntryPut (paymentOption : PaymentOption) :
    Asks (MayPut (ownerName client.crypto entry.owner).toList (.graphEntry entry))
      (client.graphEntryPut entry paymentOption) := by
  refine asks_bind (asks_mapError (asks_mono
    (fun _ => mayPut_of_readsOnly) (asks_payForContentAddrs client _ _ _))) ?_
  rintro ⟨receipt, free⟩
  cases hlookup : receipt.lookup (ownerName client.crypto entry.owner) with
  | none =>
    simp only [hlookup]
    exact asks_throw
  | some paid =>
    simp only [hlookup]
    exact asks_bind (asks_mapError (asks_putPaid client
      (.graphEntryAddress entry.owner) _ _ _ _ _)) fun _ => asks_pure

theorem asks_checkExistence (strategy : Strategy) :
    Asks ReadsOnly (checkExistence address strategy) := by
  refine asks_bind (asks_attempt (asks_call_bind trivial fun _ => asks_fromExcept)) fun found => ?_
  rcases found with error | (_ | record)
  · cases error with
    | splitRecord holders => exact asks_pure
    | _ => exact asks_throw
  · exact asks_pure
  · exact asks_pure

variable (client) in
theorem asks_pointerPut (pointer : Pointer) (paymentOption : PaymentOption) :
    Asks (MayPut (ownerName client.crypto pointer.owner).toList (.pointer pointer))
      (client.pointerPut pointer paymentOption) := by
  refine asks_bind (asks_mapError (asks_mono
    (fun _ => mayPut_of_readsOnly) (asks_payForContentAddrs client _ _ _))) ?_
  rintro ⟨receipt, free⟩
  refine asks_bind (asks_mapError ?_) fun _ => asks_pure
  unfold putItem
  cases receipt.lookup (ownerName client.crypto pointer.owner) with
  | none =>
    exact asks_bind (asks_putUnpaid client (.pointerAddress pointer.owner) rfl _ _)
      fun _ => asks_pure
  | some paid =>
    exact asks_bind (asks_putPaid client (.pointerAddress pointer.owner) _ _ _ _ _)
      fun _ => asks_pure

variable (client) in
theorem asks_pointerCreate (owner : SecretKey) (target : PointerTarget)
    (paymentOption : PaymentOption) :
    Asks (MayPut (ownerName client.crypto (client.crypto.blsPublicKey owner)).toList
      (.pointer (.new client.crypto client.rmpTarget owner 0 target)))
      (client.pointerCreate owner target paymentOption) := by
  refine asks_bind (asks_mapError (asks_mono
    (fun _ => mayPut_of_readsOnly) (asks_checkExistence _ _))) fun there => ?_
  exact asks_ite asks_throw
    (asks_pointerPut client (.new client.crypto client.rmpTarget owner 0 target) paymentOption)

end MayPut

end Network

end Autonomi.Client
