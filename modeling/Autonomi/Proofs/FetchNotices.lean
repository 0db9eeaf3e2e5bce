/-
Which fetch a client's put marks as completed.

A node that is about to fetch a record by replication is told with
`NotifyFetchCompleted` when the record arrives otherwise, under a key and a
validation type.  The type is taken from the record as the client sent it, while the
driver indexes the record as it is stored, without its payment.  `Notices` follows a
validation: the record it leaves under the key, and the notices it gives.
-/
import Autonomi.Node.Driver
import Autonomi.Proofs.PaidPuts

namespace Autonomi

open Lib Lib.Fallible

/-- What a validation has done so far that matters here. -/
structure Notices where
  /-- The record it put, or the one it read. -/
  held : Option Record
  announced : List (RecordKey × ValidationType)

/-- Everything is allowed; reads, puts and notices are taken down. -/
def noticeMonitor : Program.Monitor NodeRequest NodeRequest.Response Notices where
  allows _ _ := True
  next
    | w, .getLocalRecord _, .ok found => { w with held := found }
    | w, .putLocalRecord record _, _ => { w with held := some record }
    | w, .notifyFetchCompleted key validationType, _ =>
      { w with announced := w.announced ++ [(key, validationType)] }
    | w, _, _ => w

def noticesOf (es : List NodeExchange) : Notices := noticeMonitor.after ⟨none, []⟩ es

/-- Under the key of the record, exactly the type under which the stored record is indexed is
announced. -/
def MarksStored (n : Node) (record stored : Record) (w : Notices) : Prop :=
  ∀ validationType, (record.key, validationType) ∈ w.announced ↔
    localRecordType n stored = some validationType

/-- An accepted validation has given these notices, and what it holds is as `P` says. -/
def Ends {α : Type} (announced : List (RecordKey × ValidationType)) (P : Record → Prop)
    (w : Notices) (x : Except PutValidationError α) : Prop :=
  ∀ a, x = .ok a → w.announced = announced ∧ ∀ stored, w.held = some stored → P stored

variable {n : Node} {record : Record} {P : Record → Prop}
  {announced : List (RecordKey × ValidationType)}

/-! ### Rules -/

section Rules

variable {α β : Type} {w : Notices}

theorem ends_error (e : PutValidationError) : Ends (α := α) announced P w (.error e) := by
  intro a h
  cases h

theorem ends_ok {a : α} (hannounced : w.announced = announced)
    (hheld : ∀ stored, w.held = some stored → P stored) : Ends announced P w (.ok a) :=
  fun _ _ => ⟨hannounced, hheld⟩

theorem obeys_inquiry {p : Validation α} (h : Asks NodeRequest.Inquiry p) :
    Obeys noticeMonitor (fun w' _ => w' = w) w p := by
  unfold Asks at h
  unfold Obeys at h ⊢
  generalize p.run = tree at h ⊢
  induction tree with
  | done a => rfl
  | ask q next ih =>
    refine ⟨trivial, fun x => ?_⟩
    have hnext : noticeMonitor.next w q x = w := by
      cases q with
      | getLocalRecord _ | putLocalRecord _ _ | notifyFetchCompleted _ _ => exact False.elim h.1
      | _ => rfl
    rw [hnext]
    exact ih x (h.2 x)

theorem obeys_inquiry_bind {p : Validation α} {f : α → Validation β}
    (hp : Asks NodeRequest.Inquiry p) (hf : ∀ a, Obeys noticeMonitor (Ends announced P) w (f a)) :
    Obeys noticeMonitor (Ends announced P) w (p >>= f) := by
  refine obeys_bind (obeys_mono ?_ (obeys_inquiry hp))
  rintro w' x rfl
  cases x with
  | ok a => exact hf a
  | error e => exact ends_error e

theorem obeys_decoded_bind {decoded : Option α} {f : α → Validation β}
    (hf : ∀ a, decoded = some a → Obeys noticeMonitor (Ends announced P) w (f a)) :
    Obeys noticeMonitor (Ends announced P) w (orInvalidRecord decoded record.key >>= f) :=
  obeys_fromExcept_bind (fun _ _ => ends_error _) fun a ha => hf a (Checks.okOr_eq_ok.mp ha)

variable {validationType : ValidationType}

theorem ends_notify (h : Ends (α := Unit) [] P w (.ok ())) :
    Obeys noticeMonitor (Ends [(record.key, validationType)] P) w
      (notifyFetchCompleted record.key validationType) := by
  obtain ⟨hannounced, hheld⟩ := h () rfl
  refine obeys_request trivial fun _ => ends_ok ?_ hheld
  show w.announced ++ [_] = _
  rw [hannounced, List.nil_append]

theorem ends_notify_bind (h : Ends (α := Unit) [] P w (.ok ())) :
    Obeys noticeMonitor (Ends [(record.key, validationType)] P) w
      (notifyFetchCompleted record.key validationType >>= fun _ => fromExcept (.ok ())) := by
  refine obeys_bind (obeys_mono ?_ (ends_notify h))
  intro w' x hx
  cases x with
  | ok _ => exact hx
  | error e => exact ends_error e

theorem ends_storeThenNotify {store : Validation Unit}
    (h : Obeys noticeMonitor (Ends [] P) w store) :
    Obeys noticeMonitor (Ends [(record.key, validationType)] P) w
      (storeThenNotify store record.key validationType) := by
  refine obeys_bind (obeys_mono ?_ h)
  intro w' x hx
  cases x with
  | ok _ => exact ends_notify hx
  | error e => exact ends_error e

end Rules

/-! ### The store functions -/

section Stores

variable {key : RecordKey} {isClientPut : Bool} {stored : Record}

theorem ends_held (h : P stored) : Ends (α := Unit) [] P ⟨some stored, []⟩ (.ok ()) := by
  refine ends_ok rfl ?_
  rintro _ ⟨⟩
  exact h

theorem ends_put (found : Found) (h : P stored) :
    Obeys noticeMonitor (Ends [] P) (noticeMonitor.next ⟨none, []⟩ (.getLocalRecord key) found)
      (putLocalRecord stored isClientPut) := by
  refine obeys_request trivial fun _ => ?_
  rcases found with e | found
  · exact ends_held h
  · exact ends_held h

theorem ends_storeChunk {chunk : Chunk} :
    Obeys noticeMonitor (Ends [] fun stored => ∃ chunk, stored.value = .ofChunk chunk) ⟨none, []⟩
      (storeChunk n chunk isClientPut) := by
  refine obeys_reject_bind (fun _ => ends_error _) fun _ => ?_
  exact obeys_request trivial fun _ => ends_held ⟨chunk, rfl⟩

theorem ofPointer_of_local {p : Pointer} (h : localPointer (.ok (some stored)) = some p) :
    stored.value = .ofPointer p := by
  obtain ⟨key, kind, body⟩ := stored
  change (if kind = some (.dataOnly .pointer) then RecordValue.asPointer ⟨kind, body⟩ else none)
    = some p at h
  by_cases hkind : kind = some (.dataOnly .pointer)
  · obtain rfl := hkind
    obtain rfl : body = .pointer p := RecordValue.asPointer_eq_some.mp h
    rfl
  · rw [if_neg hkind] at h
    cases h

theorem ends_pointer {p : Pointer} :
    Obeys noticeMonitor (Ends [] fun stored => stored.value = .ofPointer p) ⟨none, []⟩
      (validateAndStorePointerRecord n p key isClientPut) := by
  refine obeys_pointer ends_error trivial (fun _ => ends_error) ?_ fun found _ => ends_put found rfl
  intro found hlocal
  rcases found with e | _ | stored
  · cases hlocal
  · cases hlocal
  · exact ends_held (ofPointer_of_local hlocal)

def Body.Bare : Body → Prop
  | .paid _ _ => False
  | .merklePaid _ _ => False
  | _ => True

theorem ends_scratchpad {pad : Scratchpad} :
    Obeys noticeMonitor (Ends [] fun stored => stored.value.body.Bare) ⟨none, []⟩
      (validateAndStoreScratchpadRecord n pad key isClientPut) := by
  refine obeys_scratchpad ends_error trivial (fun _ => ends_error) ?_
    fun found _ => ends_put found trivial
  intro stored hlocal
  refine ends_held ?_
  rw [RecordValue.asScratchpad_eq_some.mp hlocal]
  trivial

theorem ends_graphEntries {entries : List GraphEntry} :
    Obeys noticeMonitor (Ends [] fun stored => stored.value.body.Bare) ⟨none, []⟩
      (validateMergeAndStoreGraphentries n entries key isClientPut) := by
  have hnone : Ends [] (fun stored => stored.value.body.Bare) ⟨none, []⟩ (.ok ()) := by
    refine ends_ok rfl ?_
    rintro _ ⟨⟩
  refine obeys_graphEntries ends_error trivial (fun _ => ends_error) (fun _ => hnone) ?_
    fun found _ _ => ends_put found trivial
  intro found old hlocal _
  rcases found with e | _ | stored
  · cases hlocal
  · exact hnone
  · refine ends_held ?_
    rw [RecordValue.asGraphEntries_eq_some.mp hlocal]
    trivial

end Stores

/-! ### The handlers

A chunk is announced as one; what it leaves, if it is put, is the chunk.  With a payment,
everything else is announced by the hash of the whole record, and what is stored has no
payment in it. -/

section Handlers

theorem not_bare_of_paid {α : Type} {v : RecordValue} {proj : Item → Option α}
    {decoded : ProofOfPayment × α} (h : v.paidAs proj = some decoded) : ¬ v.body.Bare := by
  obtain ⟨item, hbody, -⟩ := RecordValue.paidAs_eq_some.mp h
  rw [hbody]
  exact not_false

theorem not_bare_of_merklePaid {α : Type} {v : RecordValue} {proj : Item → Option α}
    {decoded : MerklePaymentProof × α} (h : v.merklePaidAs proj = some decoded) :
    ¬ v.body.Bare := by
  obtain ⟨item, hbody, -⟩ := RecordValue.merklePaidAs_eq_some.mp h
  rw [hbody]
  exact not_false

theorem ends_mono {Q : Record → Prop} {w : Notices} {p : Validation Unit}
    (h : Obeys noticeMonitor (Ends announced P) w p) (hPQ : ∀ stored, P stored → Q stored) :
    Obeys noticeMonitor (Ends announced Q) w p := by
  refine obeys_mono ?_ h
  intro w x hx a ha
  obtain ⟨hannounced, hheld⟩ := hx a ha
  exact ⟨hannounced, fun stored hstored => hPQ stored (hheld stored hstored)⟩

theorem ends_bare_pointer {p : Pointer} {key : RecordKey} {isClientPut : Bool} :
    Obeys noticeMonitor (Ends [] fun stored => stored.value.body.Bare) ⟨none, []⟩
      (validateAndStorePointerRecord n p key isClientPut) := by
  refine ends_mono ends_pointer fun stored hstored => ?_
  rw [hstored]
  trivial

/-- An accepted chunk is announced as a chunk, and stored as one if it is stored. -/
def EndsAsChunk (record : Record) (p : Validation Unit) : Prop :=
  Obeys noticeMonitor (Ends [(record.key, .chunk)] fun stored =>
    ∃ chunk, stored.value = .ofChunk chunk) ⟨none, []⟩ p

/-- An accepted record is announced by its hash, and stored as something else. -/
def EndsPaid (n : Node) (record : Record) (p : Validation Unit) : Prop :=
  Obeys noticeMonitor (Ends [(record.key, contentValidationType n record)] fun stored =>
    stored.value ≠ record.value) ⟨none, []⟩ p

theorem endsPaid_of_bare {p : Validation Unit} (hpaid : ¬ record.value.body.Bare)
    (h : Obeys noticeMonitor (Ends [(record.key, contentValidationType n record)]
      fun stored => stored.value.body.Bare) ⟨none, []⟩ p) : EndsPaid n record p := by
  refine ends_mono h fun stored hstored heq => hpaid ?_
  rw [← heq]
  exact hstored

theorem endsPaid_store {store : Validation Unit} (hpaid : ¬ record.value.body.Bare)
    (h : Obeys noticeMonitor (Ends [] fun stored => stored.value.body.Bare) ⟨none, []⟩ store) :
    EndsPaid n record (storeThenNotify store record.key (contentValidationType n record)) :=
  endsPaid_of_bare hpaid (ends_storeThenNotify h)

theorem endsAsChunk_exists : EndsAsChunk record (notifyFetchCompleted record.key .chunk) := by
  refine ends_notify (ends_ok rfl ?_)
  rintro _ ⟨⟩

theorem endsAsChunk_putPaidChunk : EndsAsChunk record (putPaidChunk n record) := by
  refine obeys_decoded_bind ?_
  rintro ⟨payment, chunk⟩ _
  refine obeys_inquiry_bind inquiry_validateKeyAndExistence fun alreadyExists => ?_
  refine obeys_inquiry_bind (asks_attempt inquiry_paymentForUs) fun paymentRes => ?_
  refine obeys_ite (fun _ => endsAsChunk_exists) fun _ => ?_
  exact obeys_inquiry_bind asks_fromExcept fun _ => ends_storeThenNotify ends_storeChunk

theorem endsPaid_putPaidScratchpad : EndsPaid n record (putPaidScratchpad n record) := by
  refine obeys_decoded_bind ?_
  rintro ⟨payment, pad⟩ hdecoded
  refine endsPaid_of_bare (not_bare_of_paid hdecoded) ?_
  refine obeys_inquiry_bind inquiry_validateKeyAndExistence fun _ => ?_
  refine obeys_inquiry_bind inquiry_paymentForUs fun _ => ?_
  refine obeys_bind (obeys_attempt (obeys_mono ?_ ends_scratchpad))
  intro w stored hstored
  cases stored with
  | ok _ => exact ends_notify_bind hstored
  | error e =>
    -- An outdated scratchpad is announced too, but the put is refused.
    cases e with
    | outdatedRecordCounter counter expected =>
      exact obeys_request_bind trivial fun _ => obeys_fromExcept (ends_error _)
    | _ => exact obeys_fromExcept (ends_error _)

theorem endsPaid_putPaidGraphEntry : EndsPaid n record (putPaidGraphEntry n record) := by
  refine obeys_decoded_bind ?_
  rintro ⟨payment, entry⟩ hdecoded
  refine obeys_reject_bind (fun _ => ends_error _) fun _ => ?_
  refine obeys_inquiry_bind inquiry_validateKeyAndExistence fun _ => ?_
  refine obeys_inquiry_bind (asks_attempt inquiry_paymentForUs) fun _ => ?_
  exact obeys_inquiry_bind inquiry_unlessExists fun _ =>
    endsPaid_store (not_bare_of_paid hdecoded) ends_graphEntries

theorem endsPaid_putPaidPointer : EndsPaid n record (putPaidPointer n record) := by
  refine obeys_decoded_bind ?_
  rintro ⟨payment, p⟩ hdecoded
  refine obeys_inquiry_bind inquiry_validateKeyAndExistence fun _ => ?_
  refine obeys_inquiry_bind (asks_attempt inquiry_paymentForUs) fun _ => ?_
  exact obeys_inquiry_bind inquiry_unlessExists fun _ =>
    endsPaid_store (not_bare_of_paid hdecoded) ends_bare_pointer

theorem endsPaid_merkle {dataType : DataTypes} (h : dataType ≠ .chunk) :
    EndsPaid n record (validateAndStoreMerklePaymentRecord n record dataType) := by
  cases dataType with
  | chunk => exact absurd rfl h
  | scratchpad =>
    refine obeys_decoded_bind ?_
    rintro ⟨proof, pad⟩ hdecoded
    exact obeys_inquiry_bind inquiry_verifyMerklePayment fun _ =>
      endsPaid_store (not_bare_of_merklePaid hdecoded) ends_scratchpad
  | graphEntry =>
    refine obeys_decoded_bind ?_
    rintro ⟨proof, entry⟩ hdecoded
    exact obeys_inquiry_bind inquiry_verifyMerklePayment fun _ =>
      endsPaid_store (not_bare_of_merklePaid hdecoded) ends_graphEntries
  | pointer =>
    refine obeys_decoded_bind ?_
    rintro ⟨proof, p⟩ hdecoded
    exact obeys_inquiry_bind inquiry_verifyMerklePayment fun _ =>
      endsPaid_store (not_bare_of_merklePaid hdecoded) ends_bare_pointer

theorem endsAsChunk_merkle :
    EndsAsChunk record (validateAndStoreMerklePaymentRecord n record .chunk) := by
  refine obeys_decoded_bind ?_
  rintro ⟨proof, chunk⟩ _
  refine obeys_inquiry_bind inquiry_validateKeyAndExistence fun alreadyExists => ?_
  refine obeys_ite (fun _ => endsAsChunk_exists) fun _ => ?_
  exact obeys_inquiry_bind inquiry_verifyMerklePayment fun _ =>
    ends_storeThenNotify ends_storeChunk

theorem ends_putScratchpad :
    Obeys noticeMonitor (Ends [] fun _ => True) ⟨none, []⟩ (putScratchpad n record) := by
  refine obeys_decoded_bind fun pad _ => ?_
  refine obeys_inquiry_bind inquiry_validateKeyAndExistence fun _ => ?_
  refine obeys_reject_bind (fun _ => ends_error _) fun _ => ?_
  exact ends_mono ends_scratchpad fun _ _ => trivial

theorem ends_putPointer (hkind : record.value.kind = some (.dataOnly .pointer)) :
    Obeys noticeMonitor (Ends [(record.key, contentValidationType n record)] fun stored =>
      stored.value = record.value) ⟨none, []⟩ (putPointer n record) := by
  refine obeys_decoded_bind fun p hdecoded => ?_
  have hvalue : RecordValue.ofPointer p = record.value := by
    obtain ⟨key, kind, body⟩ := record
    obtain rfl : kind = _ := hkind
    obtain rfl : body = _ := RecordValue.asPointer_eq_some.mp hdecoded
    rfl
  refine obeys_inquiry_bind inquiry_validateKeyAndExistence fun _ => ?_
  refine obeys_reject_bind (fun _ => ends_error _) fun _ => ?_
  exact ends_storeThenNotify (ends_mono ends_pointer fun _ h => h.trans hvalue)

end Handlers

/-! ### The notice and the stored record -/

/-- What an accepted put does, by the kind of its record. -/
inductive PutEnds (n : Node) (record : Record) (w : Notices) (stored : Record) : Prop
  | chunk (chunk : Chunk) (hkind : record.value.getDataType = some .chunk)
      (hvalue : stored.value = .ofChunk chunk) (hannounced : w.announced = [(record.key, .chunk)])
  | paid (dataType : DataTypes) (hne : dataType ≠ .chunk)
      (hkind : record.value.kind = some (.dataWithPayment dataType) ∨
        record.value.kind = some (.dataWithMerklePayment dataType))
      (hvalue : stored.value ≠ record.value)
      (hannounced : w.announced = [(record.key, contentValidationType n record)])
  | scratchpad (hkind : record.value.kind = some (.dataOnly .scratchpad))
      (hannounced : w.announced = [])
  | pointer (hkind : record.value.kind = some (.dataOnly .pointer))
      (hvalue : stored.value = record.value)
      (hannounced : w.announced = [(record.key, contentValidationType n record)])

section Accepted

variable {es : List NodeExchange} {stored : Record}

variable {p : Validation Unit}

theorem ends_of_runs (h : Obeys noticeMonitor (Ends announced P) ⟨none, []⟩ p)
    (hruns : Runs p es (.ok ())) (hheld : (noticesOf es).held = some stored) :
    (noticesOf es).announced = announced ∧ P stored := by
  obtain ⟨hannounced, hP⟩ := (runs_obeys h hruns).2 () rfl
  exact ⟨hannounced, hP stored hheld⟩

theorem putEnds_chunk (h : EndsAsChunk record p) (hruns : Runs p es (.ok ()))
    (hheld : (noticesOf es).held = some stored) (hkind : record.value.getDataType = some .chunk) :
    PutEnds n record (noticesOf es) stored := by
  obtain ⟨hannounced, chunk, hvalue⟩ := ends_of_runs h hruns hheld
  exact .chunk chunk hkind hvalue hannounced

theorem putEnds_paid {dataType : DataTypes} (h : EndsPaid n record p) (hruns : Runs p es (.ok ()))
    (hheld : (noticesOf es).held = some stored) (hne : dataType ≠ .chunk)
    (hkind : record.value.kind = some (.dataWithPayment dataType) ∨
      record.value.kind = some (.dataWithMerklePayment dataType)) :
    PutEnds n record (noticesOf es) stored := by
  obtain ⟨hannounced, hvalue⟩ := ends_of_runs h hruns hheld
  exact .paid dataType hne hkind hvalue hannounced

theorem putEnds_of_runs (hruns : Runs (validateAndStoreRecord n record) es (.ok ()))
    (hheld : (noticesOf es).held = some stored) : PutEnds n record (noticesOf es) stored := by
  unfold validateAndStoreRecord at hruns
  cases hkind : record.value.kind with
  | none =>
    rw [hkind] at hruns
    cases (runs_throw.mp hruns).2
  | some kind =>
    rw [hkind] at hruns
    have hchunk : kind.dataType = .chunk → record.value.getDataType = some .chunk := by
      intro htype
      show record.value.kind.map RecordKind.dataType = _
      rw [hkind, Option.map_some, htype]
    cases kind with
    | dataOnly dataType =>
      cases dataType with
      | chunk | graphEntry => cases (runs_throw.mp hruns).2
      | scratchpad =>
        exact .scratchpad hkind (ends_of_runs ends_putScratchpad hruns hheld).1
      | pointer =>
        obtain ⟨hannounced, hvalue⟩ := ends_of_runs (ends_putPointer hkind) hruns hheld
        exact .pointer hkind hvalue hannounced
    | dataWithPayment dataType =>
      cases dataType with
      | chunk => exact putEnds_chunk endsAsChunk_putPaidChunk hruns hheld (hchunk rfl)
      | graphEntry =>
        exact putEnds_paid endsPaid_putPaidGraphEntry hruns hheld (by decide) (.inl hkind)
      | scratchpad =>
        exact putEnds_paid endsPaid_putPaidScratchpad hruns hheld (by decide) (.inl hkind)
      | pointer =>
        exact putEnds_paid endsPaid_putPaidPointer hruns hheld (by decide) (.inl hkind)
    | dataWithMerklePayment dataType =>
      by_cases htype : dataType = .chunk
      · obtain rfl := htype
        exact putEnds_chunk endsAsChunk_merkle hruns hheld (hchunk rfl)
      · exact putEnds_paid (endsPaid_merkle htype) hruns hheld htype (.inr hkind)

theorem marksStored_singleton {w : Notices} {announcedType storedType : ValidationType}
    (hannounced : w.announced = [(record.key, announcedType)])
    (htype : localRecordType n stored = some storedType) :
    MarksStored n record stored w ↔ announcedType = storedType := by
  unfold MarksStored
  rw [hannounced, htype]
  constructor
  · intro h
    exact (Option.some.inj ((h announcedType).mp (List.mem_singleton.mpr rfl))).symm
  · rintro rfl validationType
    rw [List.mem_singleton, Prod.mk.injEq, Option.some.injEq]
    exact ⟨fun h => h.2.symm, fun h => ⟨rfl, h.symm⟩⟩

theorem contentValidationType_ne (hvalue : stored.value ≠ record.value)
    (hhash : contentValidationType n record = contentValidationType n stored →
      record.value = stored.value)
    {storedType : ValidationType} (htype : localRecordType n stored = some storedType) :
    contentValidationType n record ≠ storedType := by
  intro heq
  unfold localRecordType at htype
  split at htype
  · rw [← heq] at htype
    cases htype
  · rw [← heq] at htype
    exact hvalue (hhash (Option.some.inj htype).symm).symm
  all_goals cases htype

end Accepted

namespace Sample

def pointerPayment : ProofOfPayment :=
  ⟨[([7], { quote with quotingMetrics := metrics DataTypes.pointer.getIndex })]⟩

def paidPointerPut : Record :=
  ⟨ownerKey, ⟨some (.dataWithPayment .pointer), .paid pointerPayment (.pointer pointer)⟩⟩

def paidAnswers : (q : NodeRequest) → q.Response
  | .isRecordKeyPresentLocally _ => .ok none
  | .getLocalRecord _ => .ok none
  | .putLocalRecord _ _ => ()
  | .notifyFetchCompleted _ _ => ()
  | .notifyPaymentReceived => ()
  | .getKClosestLocalPeers _ => .ok [[7]]
  | .getNetworkDensity => .ok none
  | .verifyPayment _ => .ok (paidResults (bytes32 0))
  | .getMerklePaymentInfo _ => .error ""
  | .getMerklePaymentPackedCommitments _ _ => .ok []
  | .getClosestPeersWithRetries _ _ => .ok []
  | .systemTimeNow => .ok 0

/-- The same where the key is taken, for an update. -/
def updateAnswers : (q : NodeRequest) → q.Response
  | .isRecordKeyPresentLocally _ => .ok (some heldEntry)
  | q => paidAnswers q

def putTrace (record : Record) (answer : (q : NodeRequest) → q.Response) :
    List NodeExchange × Except PutValidationError Unit :=
  (validateAndStoreRecord node record).run.trace answer

theorem runs_putTrace {answer : (q : NodeRequest) → q.Response}
    (h : (putTrace record answer).2 = .ok ()) :
    Runs (validateAndStoreRecord node record) (putTrace record answer).1 (.ok ()) := by
  rw [← h]
  exact Program.executes_trace _ _

end Sample

open Sample

end Autonomi
