/-
Validations running side by side.

Every unverified record a node receives, from a client or by replication, is validated
in a task of its own.  The tasks share the driver: they ask it for local records and
send it puts, and in between the driver, its file tasks and the other validations go on.
A state is the driver's and the validations with what remains of them; a step lets one
of them go on.
-/
import Autonomi.Node.Driver
import Autonomi.Node.RecordHandlers

namespace Autonomi

open Lib

inductive Source
  | client
  | replicated
deriving DecidableEq

structure Job where
  source : Source
  record : Record
deriving DecidableEq

abbrev Remaining := Program NodeRequest NodeRequest.Response (Except PutValidationError Unit)

structure Running where
  job : Job
  program : Remaining

def Job.start (n : Node) (job : Job) : Validation Unit :=
  match job.source with
  | .client => validateAndStoreRecord n job.record
  | .replicated => storeReplicatedInRecord n job.record

structure NodeState where
  driver : DriverState
  validations : List Running

inductive NodeLabel
  /-- An unverified record arrives. -/
  | start (job : Job)
  /-- The request of a validation is answered; what the driver does not know is given. -/
  | answer (i : Nat) (environment : (q : NodeRequest) → q.Response)
  | driver (label : DriverLabel)

variable (n : Node) (cfg : NodeRecordStoreConfig)

/-- The answer to a request: from the store, or from the environment. -/
def answerTo (d : DriverState) (environment : (q : NodeRequest) → q.Response) :
    (q : NodeRequest) → q.Response
  | .isRecordKeyPresentLocally key => .ok (d.store.records.lookup key)
  | .getLocalRecord key => .ok (d.visible cfg key)
  | .putLocalRecord _ _ => ()
  | .notifyFetchCompleted _ _ => ()
  | .notifyPaymentReceived => ()
  | .getKClosestLocalPeers address => environment (.getKClosestLocalPeers address)
  | .getNetworkDensity => environment .getNetworkDensity
  | .verifyPayment payments => environment (.verifyPayment payments)
  | .getMerklePaymentInfo winnerPoolHash => environment (.getMerklePaymentInfo winnerPoolHash)
  | .getMerklePaymentPackedCommitments winnerPoolHash timestamp =>
    environment (.getMerklePaymentPackedCommitments winnerPoolHash timestamp)
  | .getClosestPeersWithRetries address count =>
    environment (.getClosestPeersWithRetries address count)
  | .systemTimeNow => environment .systemTimeNow

/-- What a request does to the driver: a put is sent off, a read may send a command. -/
def effectOf (d : DriverState) : NodeRequest → DriverState
  | .getLocalRecord key => d.read cfg key
  | .putLocalRecord record isClientPut => d.send (.putLocalRecord record isClientPut)
  | _ => d

def nodeStep (s : NodeState) : NodeLabel → Option NodeState
  | .start job =>
    some { s with validations := s.validations ++ [⟨job, (job.start n).run⟩] }
  | .answer i environment =>
    match s.validations[i]? with
    | some ⟨job, .ask q next⟩ =>
      some
        { driver := effectOf cfg s.driver q
          validations := s.validations.set i
            ⟨job, next (answerTo cfg s.driver environment q)⟩ }
    | some ⟨_, .done _⟩ => none
    | none => none
  | .driver label => (driverStep n cfg s.driver label).map fun d => { s with driver := d }

/-- Every validation has finished and the driver has nothing left to do. -/
def NodeState.Drained (s : NodeState) : Prop :=
  s.driver.Drained ∧ ∀ v ∈ s.validations, ∃ result, v.program = .done result

end Autonomi
